import Relay.Server.ExactlyOnce

/-! # How long identifiers are at rest

A session counts its packet identifiers up and starts again after 65535. Until then every
identifier that comes next is at rest: it is neither in the queue nor on the line, and no
reply can be for it.
-/

namespace Relay

/-- What reading a packet may bring up: the identifier of the QoS 2 message read. -/
structure Client.UsesRead (c c' : Client) (packet : Packet) (pid : Nat) : Prop where
  line : c'.line = c.line
  late : c'.late = c.late
  replies : .pubrec pid ∈ c'.replies → .pubrec pid ∈ c.replies ∨ packet.qos2Id = some pid
  held : pid ∈ c'.held → pid ∈ c.held ∨ packet.qos2Id = some pid

/-- Reading brings no other identifier up. -/
theorem Client.uses_read (c : Client) (packet : Packet) (pid : Nat) :
    c.UsesRead (c.read packet) packet pid := by
  unfold Client.read
  split
  next pid' =>
    exact ⟨rfl, rfl, fun hmem => Or.inl (by simpa using hmem),
      fun hmem => Or.inl (Finset.mem_of_mem_erase hmem)⟩
  next p =>
    split
    next pid' hqos hpid =>
      have hid : pid = pid' → (Packet.publish p).qos2Id = some pid := by
        rintro rfl
        rw [Packet.qos2Id, if_pos hqos, hpid]
      have hreplies : .pubrec pid ∈ c.replies ++ [.pubrec pid'] →
          .pubrec pid ∈ c.replies ∨ (Packet.publish p).qos2Id = some pid := by
        intro hmem
        exact (List.mem_append.mp hmem).imp_right fun h => hid (by simpa using h)
      split
      · exact ⟨rfl, rfl, hreplies, Or.inl⟩
      · refine ⟨rfl, rfl, hreplies, fun hmem => ?_⟩
        exact (Finset.mem_insert.mp hmem).symm.imp_right hid
    next pid' hqos hpid => exact ⟨rfl, rfl, fun hmem => Or.inl (by simpa using hmem), Or.inl⟩
    next => exact ⟨rfl, rfl, Or.inl, Or.inl⟩

namespace Link

variable {cfg : RetryConfig} {l l' : Link} {v : Numbering} {hd : Handling} {pid : Nat}

/-- An identifier at rest stays out of the queue until it is given out. -/
theorem Rests.queue_handle {s' : Session} {dead : List DeadMsg}
    (hsession : l.session.handle cfg hd = some (s', dead)) (hrests : l.Rests pid)
    (hnew : hd.offer.any Message.takesId = true → pid ≠ l.session.nextId) {e : InflightEntry}
    (he : e ∈ s'.inflight) (hqos2 : e.state.isQos2 = true) : e.state.packetId ≠ some pid := by
  intro hpid
  rcases Session.entry_of_handle hsession he with ⟨e₀, he₀, note, hmove⟩ | ⟨b, hb, rfl⟩
  · obtain ⟨hkind, hsame⟩ := hmove.packetId
    exact hrests.1 e₀ he₀ (hkind ▸ hqos2) (hsame ▸ hpid)
  · obtain ⟨p, hnext, hoffer, ⟨hstate, -⟩ | ⟨hstate, hqos⟩, -⟩ := Handling.born_cases hb
    · rw [hstate] at hqos2
      cases hqos2
    · rw [hstate, Inflight.packetId, hnext] at hpid
      refine hnew ?_ (Option.some.inj hpid).symm
      rw [hoffer, Option.any_some]
      simp [Message.takesId, Publish.message, hqos]

/-- An identifier at rest stays off the line until it is given out. -/
theorem Rests.line_handle (hv : l.Numbers v) (hattach : hd ≠ .call .attach)
    (hunasked : hd.unasked = true ∨ ∃ ack : Ack, hd = .call ack.op)
    {s' : Session} {dead : List DeadMsg} (hsession : l.session.handle cfg hd = some (s', dead))
    (hrests : l.Rests pid) (hnew : hd.offer.any Message.takesId = true → pid ≠ l.session.nextId)
    {packet : Packet} (hpacket : packet ∈ l.session.putSince s') : packet.qos2Id ≠ some pid := by
  intro hpid
  cases packet with
  | publishRelease pid' => cases hpid
  | publish p =>
      rw [Packet.qos2Id] at hpid
      split at hpid
      next hqos =>
        rcases Session.publish_of_handle hattach hunasked hsession hpacket with
          ⟨e, he, hagain⟩ | ⟨hnext, hoffer, -⟩ | hqos0
        · cases hstate : e.state with
          | qos1 q =>
              rw [hstate] at hagain
              cases hagain
              rw [← hv.queue] at he
              obtain ⟨x, hx, rfl⟩ := List.mem_map.mp he
              exact hv.queuedQos1 x.1 x.2 q hx hstate hqos
          | qos2AwaitRec q =>
              rw [hstate] at hagain
              cases hagain
              exact hrests.1 e he (by rw [hstate]; rfl) (by rw [hstate]; exact hpid)
          | qos2AwaitComp pid' =>
              rw [hstate] at hagain
              cases hagain
        · rw [hnext] at hpid
          refine hnew ?_ (Option.some.inj hpid).symm
          rw [hoffer, Option.any_some]
          simp [Message.takesId, Publish.message, hqos]
        · rw [hqos0] at hqos
          cases hqos
      next => cases hpid

/-- Only a delivery takes an identifier up again, the one that is next. -/
theorem Rests.handle (hv : l.Numbers v) (hattach : hd ≠ .call .attach)
    (hunasked : hd.unasked = true ∨ ∃ ack : Ack, hd = .call ack.op)
    (hhandle : l.handle cfg hd = some l') (hrests : l.Rests pid)
    (hnew : hd.offer.any Message.takesId = true → pid ≠ l.session.nextId) : l'.Rests pid := by
  obtain ⟨s', dead, hsession, rfl⟩ := exists_of_handle hhandle
  refine ⟨fun e => hrests.queue_handle hsession hnew, fun packet hpacket => ?_, hrests.2.2⟩
  rcases List.mem_append.mp hpacket with hold | hput
  · exact hrests.2.1 packet hold
  · exact hrests.line_handle hv hattach hunasked hsession hnew hput

theorem Rests.reads {packet : Packet} {rest : List Packet} (hline : l.client.line = packet :: rest)
    (hrests : l.Rests pid) : (l.reads packet rest).Rests pid := by
  obtain ⟨hqueue, hpackets, hreplies, hlate, hheld⟩ := hrests
  rw [hline] at hpackets
  obtain ⟨hfirst, hrest⟩ := List.forall_mem_cons.mp hpackets
  have hread := Client.uses_read { l.client with line := rest } packet pid
  refine ⟨hqueue, ?_, fun hmem => ?_, ?_, fun hmem => ?_⟩
  · rw [Link.reads, hread.line]
    exact hrest
  · rcases hread.replies hmem with hold | hnew
    · exact hreplies hold
    · exact hfirst hnew
  · rw [Link.reads, hread.late]
    exact hlate
  · rcases hread.held hmem with hold | hnew
    · exact hheld hold
    · exact hfirst hnew

theorem Rests.withReplies (hrests : l.Rests pid) {replies late : List Ack}
    (hreplies : replies ⊆ l.client.replies) (hlate : late ⊆ l.client.late) :
    (l.withReplies replies late).Rests pid :=
  ⟨hrests.1, hrests.2.1, fun hmem => hrests.2.2.1 (hreplies hmem),
    fun hmem => hrests.2.2.2.1 (hlate hmem), hrests.2.2.2.2⟩

/-- What was on the line is lost, and the replies are late. -/
theorem Rests.reconnect (hrests : l.Rests pid) : l.reconnect.Rests pid := by
  obtain ⟨hqueue, -, hreplies, hlate, hheld⟩ := hrests
  refine ⟨hqueue, List.forall_mem_nil _, List.not_mem_nil, ?_, hheld⟩
  intro hmem
  rcases List.mem_append.mp hmem with hold | hnew
  · exact hlate hold
  · exact hreplies hnew

/-! ## Counting -/

/-- The identifier of a message, counted from the first that a session gives. -/
def idAt (first j : Nat) : Nat := (first + j) % 65535 + 1

theorem bumpId_idAt (first j : Nat) : Session.bumpId (idAt first j) = idAt first (j + 1) :=
  Session.bumpId_mod (first + j)

/-- The first 65535 identifiers are different. -/
theorem idAt_inj {first i j : Nat} (hi : i < 65535) (hj : j < 65535)
    (heq : idAt first i = idAt first j) : i = j := by
  unfold idAt at heq
  omega

def numbered (l : Link) : List Message := l.offered.filter Message.takesId

def issued (l : Link) : Nat := l.numbered.length

/-- The identifiers count up from the first; those that come next are at rest. -/
structure Issues (first : Nat) (l : Link) : Prop where
  nextId : l.session.nextId = idAt first l.issued
  rests : ∀ j, l.issued ≤ j → j < 65535 → l.Rests (idAt first j)

variable {first : Nat}

theorem numbered_handle (hhandle : l.handle cfg hd = some l') :
    l'.numbered = l.numbered ++ (hd.offer.filter Message.takesId).toList := by
  obtain ⟨s', dead, -, rfl⟩ := exists_of_handle hhandle
  rw [numbered, List.filter_append]
  congr 1
  cases hd.offer with
  | none => rfl
  | some m => cases htakes : m.takesId <;> simp [Option.filter, htakes]

theorem issued_handle (hhandle : l.handle cfg hd = some l') :
    l'.issued = l.issued + if hd.offer.any Message.takesId = true then 1 else 0 := by
  rw [issued, numbered_handle hhandle, List.length_append]
  cases hd.offer with
  | none => rfl
  | some m => cases htakes : m.takesId <;> simp [Option.filter, htakes, issued]

/-- The counter of the session follows the number of identifiers given out. -/
theorem nextId_of_handle (hnextId : l.session.nextId = idAt first l.issued)
    (hhandle : l.handle cfg hd = some l') : l'.session.nextId = idAt first l'.issued := by
  have hissued := issued_handle hhandle
  obtain ⟨s', dead, hsession, rfl⟩ := exists_of_handle hhandle
  rw [Session.nextId_handle hsession, hissued, hnextId]
  split
  · exact bumpId_idAt _ _
  · rfl

/-- What the hub does uses up at most the next identifier. -/
theorem Issues.handle (hl : l.Issues first) (hv : l.Numbers v) (hattach : hd ≠ .call .attach)
    (hunasked : hd.unasked = true ∨ ∃ ack : Ack, hd = .call ack.op)
    (hhandle : l.handle cfg hd = some l') : l'.Issues first := by
  have hissued := issued_handle hhandle
  refine ⟨nextId_of_handle hl.nextId hhandle, fun j hj hbound => ?_⟩
  refine (hl.rests j (by omega) hbound).handle hv hattach hunasked hhandle ?_
  intro htakes heq
  rw [if_pos htakes] at hissued
  rw [hl.nextId] at heq
  have hsame := idAt_inj hbound (by omega) heq
  omega

theorem Issues.of_rests (hl : l.Issues first) (hnextId : l'.session.nextId = l.session.nextId)
    (hoffered : l'.offered = l.offered) (hrests : ∀ pid, l.Rests pid → l'.Rests pid) :
    l'.Issues first where
  nextId := by rw [hnextId, hl.nextId, issued, issued, numbered, numbered, hoffered]
  rests j hj hbound := hrests _ (hl.rests j (by rwa [issued, numbered, hoffered] at hj) hbound)

/-- No other step of the link brings an identifier into use. -/
theorem Issues.stepped (hl : l.Issues first) (hv : l.Numbers v) (hstep : Stepped cfg l l') :
    l'.Issues first := by
  cases hstep with
  | handled hd hunasked hhandle =>
      refine hl.handle hv ?_ (Or.inl hunasked) hhandle
      rintro rfl
      cases hunasked
  | resumed now hhandle =>
      have hl₁ : l.reconnect.Issues first := hl.of_rests rfl rfl fun _ => Rests.reconnect
      exact hl₁.handle hv.reconnect (by simp) (Or.inl rfl) hhandle
  | read packet rest hline hafter =>
      rw [hafter]
      exact hl.of_rests rfl rfl fun _ => Rests.reads hline
  | answered ack replies late _ hreplies hlate hhandle =>
      have hl₁ : (l.withReplies replies late).Issues first :=
        hl.of_rests rfl rfl fun _ hrests => hrests.withReplies hreplies hlate
      exact hl₁.handle { hv with } (by cases ack <;> simp [Ack.op]) (Or.inr ⟨ack, rfl⟩) hhandle

/-- As long as so few messages got an identifier, the next is at rest. -/
theorem Issues.atRest (hl : l.Issues first) {st : LinkStep} (hstep : l.step cfg st = some l')
    (hfew : l'.issued ≤ 65535) : l.AtRest st := by
  intro hoffers
  cases st with
  | handle hd =>
      cases hd with
      | call op =>
          cases op with
          | deliver topic payload qos retain now =>
              obtain rfl : qos = .exactlyOnce := of_decide_eq_true hoffers
              have hissued : l'.issued = l.issued + 1 := issued_handle hstep
              rw [hl.nextId]
              exact hl.rests l.issued (Nat.le_refl _) (by omega)
          | _ => cases hoffers
      | _ => cases hoffers
  | _ => cases hoffers

theorem issued_le (hstep : Stepped cfg l l') : l.issued ≤ l'.issued := by
  cases hstep with
  | handled hd _ hhandle => rw [issued_handle hhandle]; exact Nat.le_add_right _ _
  | resumed now hhandle => rw [issued_handle hhandle]; exact Nat.le_add_right _ _
  | read packet rest _ hafter => rw [hafter]; exact Nat.le_refl _
  | answered ack replies late _ _ _ hhandle =>
      rw [issued_handle hhandle]
      exact Nat.le_add_right _ _

/-- While identifiers were given to at most 65535 messages, the link is an exchange. -/
def Fresh (first : Nat) (l : Link) : Prop :=
  l.issued ≤ 65535 → (∃ v, l.Numbers v ∧ (v.state l).Inv) ∧ l.Issues first

/-- A step is taken with identifiers at rest, or after they have run out. -/
theorem Fresh.step {st : LinkStep} (hl : l.Fresh first) (hstep : l.step cfg st = some l') :
    l'.Fresh first := by
  intro hfew
  obtain ⟨⟨v, hv, hinv⟩, hissues⟩ := hl ((issued_le (stepped hstep)).trans hfew)
  obtain ⟨v', hv', hreaches⟩ := hv.step hinv (hissues.atRest hstep hfew) hstep
  exact ⟨⟨v', hv', hinv.reaches hreaches⟩, hissues.stepped hv (stepped hstep)⟩

theorem fresh_start {s : Session} (hqueue : s.inflight = []) (hid : s.nextId = idAt first 0) :
    (start s).Fresh first := by
  intro _
  refine ⟨exists_numbers_start hqueue, hid, fun j _ _ => ?_⟩
  refine ⟨?_, List.forall_mem_nil _, List.not_mem_nil, List.not_mem_nil, Finset.notMem_empty _⟩
  rw [show (start s).session.inflight = [] from hqueue]
  exact List.forall_mem_nil _

end Link

end Relay
