import Relay.Server.Subscriber

/-! # QoS 1 from the session to the client's application

A PUBACK names a packet identifier, not a message. As long as identifiers are not given
again it confirms the message that the client has passed on, so that a QoS 1 message that
leaves the queue was passed on or is given up.
-/

namespace Relay

def Message.isQos1 (m : Message) : Bool := m.qos = .atLeastOnce

theorem Message.takesId_of_isQos1 {m : Message} (hqos : m.isQos1 = true) : m.takesId = true := by
  rw [isQos1, decide_eq_true_eq] at hqos
  simp [takesId, hqos]

/-- Reading a message at another QoS confirms none at QoS 1. -/
theorem Client.read_of_not_qos1 (c : Client) {packet : Packet}
    (hqos : ∀ p, packet = .publish p → p.qos ≠ .atLeastOnce) :
    (c.read packet).line = c.line ∧ (c.read packet).late = c.late ∧
      (∀ pid, .puback pid ∈ (c.read packet).replies → .puback pid ∈ c.replies) ∧
        (c.read packet).log.filter Message.isQos1 = c.log.filter Message.isQos1 := by
  unfold Client.read
  split
  next pid => exact ⟨rfl, rfl, fun pid hmem => by simpa using hmem, rfl⟩
  next p =>
    have hother : p.message.isQos1 = false := by
      exact decide_eq_false (hqos p rfl)
    split
    next pid hp _ =>
      split
      · exact ⟨rfl, rfl, fun pid hmem => by simpa using hmem, rfl⟩
      · exact ⟨rfl, rfl, fun pid hmem => by simpa using hmem, by simp [hother]⟩
    next pid hp _ => exact absurd hp (hqos p rfl)
    next => exact ⟨rfl, rfl, fun _ => id, by simp [hother]⟩

namespace Link

variable {cfg : RetryConfig} {l l' : Link} {hd : Handling} {first : Nat} {passed : List Nat}

/-- The PUBLISH carries the identifier that its message was given. -/
def Tagged (first : Nat) (l : Link) (p : Publish) : Prop :=
  ∃ j, l.numbered[j]? = some p.message ∧ p.packetId = some (idAt first j)

/-- What is under way of the QoS 1 messages, with the numbers of those passed on. -/
structure Confirms (first : Nat) (l : Link) (passed : List Nat) : Prop where
  nextId : l.session.nextId = idAt first l.issued
  queue : ∀ e ∈ l.session.inflight, ∀ p, e.state.undelivered = some p → l.Tagged first p
  qos : ∀ e ∈ l.session.inflight, ∀ p, e.state = .qos1 p → p.qos = .atLeastOnce
  line : ∀ p, .publish p ∈ l.client.line → p.qos = .atLeastOnce → l.Tagged first p
  replies : ∀ pid, .puback pid ∈ l.client.replies ∨ .puback pid ∈ l.client.late →
    ∃ j ∈ passed, pid = idAt first j
  log : passed.map (l.numbered[·]?) = (l.client.log.filter Message.isQos1).map some
  dropped : ∀ msg ∈ l.dropped, l.Tagged first msg.publish
  account : ∀ j m, l.numbered[j]? = some m → m.isQos1 = true →
    j ∈ passed ∨ (∃ e ∈ l.session.inflight, ∃ p, e.state = .qos1 p ∧
      p.packetId = some (idAt first j)) ∨
        ∃ msg ∈ l.dropped, msg.publish.packetId = some (idAt first j) ∧ msg.publish.message = m

/-- A PUBLISH keeps its message when more messages are numbered. -/
theorem Tagged.mono {p : Publish} (hp : l.Tagged first p) {more : List Message}
    (hnumbered : l'.numbered = l.numbered ++ more) : l'.Tagged first p := by
  obtain ⟨j, hj, hpid⟩ := hp
  refine ⟨j, ?_, hpid⟩
  rw [hnumbered, List.getElem?_append_left (List.getElem?_eq_some_iff.mp hj).1, hj]

/-- A message sent again carries the same identifier. -/
theorem Tagged.redelivery {e : InflightEntry} {p : Publish}
    (hqueue : ∀ q, e.state.undelivered = some q → l.Tagged first q)
    (hagain : .publish p = e.state.redelivery) : l.Tagged first p := by
  cases hstate : e.state with
  | qos1 q =>
      rw [hstate] at hagain
      cases hagain
      exact hqueue q (by rw [hstate]; rfl)
  | qos2AwaitRec q =>
      rw [hstate] at hagain
      cases hagain
      exact hqueue q (by rw [hstate]; rfl)
  | qos2AwaitComp pid =>
      rw [hstate] at hagain
      cases hagain

theorem Confirms.isSome_numbered (hl : l.Confirms first passed) {j : Nat} (hj : j ∈ passed) :
    ∃ m, l.numbered[j]? = some m := by
  have hmem : l.numbered[j]? ∈ passed.map (l.numbered[·]?) := List.mem_map_of_mem hj
  rw [hl.log] at hmem
  obtain ⟨m, -, hm⟩ := List.mem_map.mp hmem
  exact ⟨m, hm.symm⟩

/-- The identifiers given so far are distinct. -/
theorem number_unique (hfew : l.issued ≤ 65535) {i j : Nat} {m m' : Message}
    (hi : l.numbered[i]? = some m) (hj : l.numbered[j]? = some m')
    (heq : idAt first i = idAt first j) : i = j := by
  have hi' := (List.getElem?_eq_some_iff.mp hi).1
  have hj' := (List.getElem?_eq_some_iff.mp hj).1
  rw [issued] at hfew
  exact idAt_inj (by omega) (by omega) heq

section Handle

variable (hl : l.Confirms first passed) (hhandle : l.handle cfg hd = some l')

include hl hhandle

/-- The message that is delivered gets the next number. -/
theorem Confirms.tagged_new {p : Publish} (hpid : p.packetId = some l.session.nextId)
    (hoffer : hd.offer = some p.message) (hqos : p.qos ≠ .atMostOnce) : l'.Tagged first p := by
  refine ⟨l.issued, ?_, by rw [hpid, hl.nextId]⟩
  rw [numbered_handle hhandle, hoffer]
  simp [issued, Option.filter, Message.takesId, Publish.message, hqos]

/-- What the hub does to the queue leaves each PUBLISH with its message. -/
theorem Confirms.queue_handle {e : InflightEntry} (he : e ∈ l'.session.inflight) {p : Publish}
    (hp : e.state.undelivered = some p) :
    l'.Tagged first p ∧ (e.state = .qos1 p → p.qos = .atLeastOnce) := by
  obtain ⟨s', dead, hsession, rfl⟩ := exists_of_handle hhandle
  rcases Session.entry_of_handle hsession he with ⟨e₀, he₀, note, hmove⟩ | ⟨b, hb, rfl⟩
  · have hsame := hmove.undelivered rfl (by rw [hp]; exact Option.some_ne_none p)
    refine ⟨(hl.queue e₀ he₀ p (hsame ▸ hp)).mono (numbered_handle hhandle), fun hqos1 => ?_⟩
    exact hl.qos e₀ he₀ p (hsame ▸ hqos1)
  · obtain ⟨q, hpid, hoffer, ⟨hstate, hqos⟩ | ⟨hstate, hqos⟩, -⟩ := Handling.born_cases hb
    · rw [hstate] at hp
      cases hp
      exact ⟨hl.tagged_new hhandle hpid hoffer (by simp [hqos]), fun _ => hqos⟩
    · rw [hstate] at hp
      cases hp
      refine ⟨hl.tagged_new hhandle hpid hoffer (by simp [hqos]), fun hqos1 => ?_⟩
      rw [hstate] at hqos1
      cases hqos1

/-- What the hub puts on the line carries the identifier of its message. -/
theorem Confirms.line_handle (hattach : hd ≠ .call .attach)
    (hunasked : hd.unasked = true ∨ ∃ ack : Ack, hd = .call ack.op) {p : Publish}
    (hp : .publish p ∈ l'.client.line) (hqos : p.qos = .atLeastOnce) : l'.Tagged first p := by
  have hnumbered := numbered_handle hhandle
  obtain ⟨s', dead, hsession, heq⟩ := exists_of_handle hhandle
  rw [heq] at hp
  rcases List.mem_append.mp hp with hold | hput
  · exact (hl.line p hold hqos).mono hnumbered
  · rcases Session.publish_of_handle hattach hunasked hsession hput with
      ⟨e, he, hagain⟩ | ⟨hpid, hoffer, hne⟩ | hqos0
    · exact (Tagged.redelivery (hl.queue e he) hagain).mono hnumbered
    · exact hl.tagged_new hhandle hpid hoffer hne
    · rw [hqos] at hqos0
      cases hqos0

/-- A QoS 1 message that leaves the queue was passed on, or is given up. -/
theorem Confirms.account_handle (hfew : l.issued ≤ 65535)
    (hack : ∀ pid, hd = .call (.onPuback pid) → ∃ j ∈ passed, pid = idAt first j) {j : Nat}
    {m : Message} (hj : l'.numbered[j]? = some m) (hqos : m.isQos1 = true) :
    j ∈ passed ∨ (∃ e ∈ l'.session.inflight, ∃ p, e.state = .qos1 p ∧
      p.packetId = some (idAt first j)) ∨
        ∃ msg ∈ l'.dropped, msg.publish.packetId = some (idAt first j) ∧ msg.publish.message = m := by
  have hnumbered := numbered_handle hhandle
  obtain ⟨s', dead, hsession, heq⟩ := exists_of_handle hhandle
  rw [hnumbered] at hj
  by_cases hold : j < l.numbered.length
  · rw [List.getElem?_append_left hold] at hj
    rcases hl.account j m hj hqos with hpassed | ⟨e, he, p, hstate, hpid⟩ | ⟨msg, hmsg, hdead⟩
    · exact Or.inl hpassed
    · obtain ⟨after, note, hmove, hstays, hgone⟩ := Session.move_of_handle hsession he
      cases after with
      | some e' =>
          refine Or.inr (Or.inl ⟨e', ?_, p, hmove.state_of_qos1 hstate, hpid⟩)
          rw [heq]
          exact hstays e' rfl
      | none =>
          have hundelivered : e.state.undelivered = some p := by rw [hstate]; rfl
          obtain ⟨i, hi, hpid'⟩ := hl.queue e he p hundelivered
          rw [hpid] at hpid'
          obtain rfl := number_unique hfew hj hi (Option.some.inj hpid')
          rcases hmove.dead_or_acked hundelivered rfl with hdead | ⟨pid, rfl, -, hacked⟩
          · refine Or.inr (Or.inr ⟨⟨p, e.attempts⟩, ?_, hpid, ?_⟩)
            · rw [heq]
              exact List.mem_append_right _ (hgone _ hdead)
            · exact Option.some.inj (hi.symm.trans hj)
          · obtain ⟨k, hk, rfl⟩ := hack pid rfl
            obtain ⟨m', hm'⟩ := hl.isSome_numbered hk
            rw [hpid] at hacked
            exact Or.inl (number_unique hfew hj hm' (Option.some.inj hacked) ▸ hk)
    · refine Or.inr (Or.inr ⟨msg, ?_, hdead⟩)
      rw [heq]
      exact List.mem_append_left _ hmsg
  · -- the message that is delivered is recorded
    rw [List.getElem?_append_right (Nat.not_lt.mp hold)] at hj
    have hmem := Option.mem_toList.mp (List.mem_of_getElem? hj)
    obtain ⟨hoffer, -⟩ := Option.filter_eq_some_iff.mp hmem
    obtain ⟨b, hb⟩ := Handling.exists_born cfg l.session hoffer (Message.takesId_of_isQos1 hqos)
    obtain ⟨p, hpid, hp, hstate, -⟩ := Handling.born_cases hb
    have hlast : j = l.issued := by
      have hlength := (List.getElem?_eq_some_iff.mp hj).1
      have hone : (hd.offer.filter Message.takesId).toList.length ≤ 1 := by
        cases hd.offer.filter Message.takesId <;> simp
      rw [issued]
      omega
    rcases hstate with ⟨hstate, -⟩ | ⟨-, hqos2⟩
    · refine Or.inr (Or.inl ⟨b.1, ?_, p, hstate, by rw [hpid, hl.nextId, hlast]⟩)
      rw [heq]
      exact Session.born_of_handle hsession hb
    · rw [hoffer] at hp
      cases hp
      rw [Message.isQos1, decide_eq_true_eq] at hqos
      rw [Publish.message, hqos2] at hqos
      cases hqos

/-- The hub may do anything to the session, except take a PUBACK for a message that was
not passed on. -/
theorem Confirms.handle (hfew : l.issued ≤ 65535) (hattach : hd ≠ .call .attach)
    (hunasked : hd.unasked = true ∨ ∃ ack : Ack, hd = .call ack.op)
    (hack : ∀ pid, hd = .call (.onPuback pid) → ∃ j ∈ passed, pid = idAt first j) :
    l'.Confirms first passed where
  nextId := nextId_of_handle hl.nextId hhandle
  queue e he p hp := (hl.queue_handle hhandle he hp).1
  qos e he p hp := (hl.queue_handle hhandle he (by rw [hp]; rfl)).2 hp
  line p hp hqos := hl.line_handle hhandle hattach hunasked hp hqos
  replies := by
    obtain ⟨s', dead, -, rfl⟩ := exists_of_handle hhandle
    exact hl.replies
  log := by
    have hsame : ∀ j ∈ passed, l'.numbered[j]? = l.numbered[j]? := by
      intro j hj
      obtain ⟨m, hm⟩ := hl.isSome_numbered hj
      rw [numbered_handle hhandle,
        List.getElem?_append_left (List.getElem?_eq_some_iff.mp hm).1]
    rw [List.map_congr_left hsame, hl.log]
    obtain ⟨s', dead, -, rfl⟩ := exists_of_handle hhandle
    rfl
  dropped := by
    have hnumbered := numbered_handle hhandle
    obtain ⟨s', dead, hsession, heq⟩ := exists_of_handle hhandle
    intro msg hmsg
    rw [heq] at hmsg
    rcases List.mem_append.mp hmsg with hold | hnew
    · exact (hl.dropped msg hold).mono hnumbered
    · obtain ⟨e, he, hp⟩ := Session.dead_of_handle hsession hnew
      exact (hl.queue e he _ hp).mono hnumbered
  account _ _ := hl.account_handle hhandle hfew hack

end Handle

/-- Losing replies confirms nothing. -/
theorem Confirms.withReplies (hl : l.Confirms first passed) {replies late : List Ack}
    (hreplies : replies ⊆ l.client.replies) (hlate : late ⊆ l.client.late) :
    (l.withReplies replies late).Confirms first passed :=
  { hl with replies := fun pid hpid => hl.replies pid (hpid.imp (@hreplies _) (@hlate _)) }

/-- The line starts over from the queue, whose PUBLISHes are tagged. -/
theorem Confirms.reconnect (hl : l.Confirms first passed) : l.reconnect.Confirms first passed :=
  { hl with
    line := fun _ hp => absurd hp List.not_mem_nil
    replies := by
      rintro pid (hnone | hlate)
      · exact absurd hnone List.not_mem_nil
      · exact hl.replies pid (List.mem_append.mp hlate).symm }

/-- Reading a QoS 1 PUBLISH passes its message on. -/
theorem Confirms.reads (hl : l.Confirms first passed) {packet : Packet} {rest : List Packet}
    (hline : l.client.line = packet :: rest) :
    ∃ passed', (l.reads packet rest).Confirms first passed' := by
  have hrest : ∀ p, .publish p ∈ rest → p.qos = .atLeastOnce → l.Tagged first p :=
    fun p hp => hl.line p (hline ▸ List.mem_cons_of_mem _ hp)
  by_cases hqos : ∀ p, packet = .publish p → p.qos ≠ .atLeastOnce
  · obtain ⟨hsame, hlate, hreplies, hlog⟩ :=
      Client.read_of_not_qos1 { l.client with line := rest } hqos
    refine ⟨passed, { hl with line := ?_, replies := ?_, log := ?_ }⟩
    · rw [Link.reads, hsame]
      exact hrest
    · rintro pid (hpid | hpid)
      · exact hl.replies pid (Or.inl (hreplies pid hpid))
      · rw [Link.reads, hlate] at hpid
        exact hl.replies pid (Or.inr hpid)
    · rw [Link.reads, hlog]
      exact hl.log
  · push Not at hqos
    obtain ⟨p, rfl, hqos⟩ := hqos
    obtain ⟨j, hj, hpid⟩ := hl.line p (hline ▸ List.mem_cons_self) hqos
    have hread : Client.read { l.client with line := rest } (.publish p) =
        { l.client with
          line := rest
          log := l.client.log ++ [p.message]
          replies := l.client.replies ++ [.puback (idAt first j)] } := by
      simp [Client.read, hqos, hpid]
    rw [Link.reads, hread]
    refine ⟨passed ++ [j], { hl with line := hrest, replies := ?_, log := ?_, account := ?_ }⟩
    · rintro pid (hnow | hlate)
      · rcases List.mem_append.mp hnow with hold | hnew
        · obtain ⟨k, hk, rfl⟩ := hl.replies pid (Or.inl hold)
          exact ⟨k, List.mem_append_left _ hk, rfl⟩
        · cases List.mem_singleton.mp hnew
          exact ⟨j, List.mem_append_right _ List.mem_cons_self, rfl⟩
      · obtain ⟨k, hk, rfl⟩ := hl.replies pid (Or.inr hlate)
        exact ⟨k, List.mem_append_left _ hk, rfl⟩
    · have hone : p.message.isQos1 = true := by simp [Message.isQos1, Publish.message, hqos]
      have hpassed : passed.map (l.numbered[·]?) = (l.client.log.filter Message.isQos1).map some :=
        hl.log
      rw [List.map_append, List.filter_append, List.map_append]
      exact congrArg₂ (· ++ ·) hpassed (by simp [hone]; exact hj)
    · intro k m hk hm
      exact (hl.account k m hk hm).imp_left (List.mem_append_left _)

/-- While identifiers were given to at most 65535 messages, a PUBACK is for a message that
was passed on. -/
def Confirmed (first : Nat) (l : Link) : Prop := l.issued ≤ 65535 → ∃ passed, l.Confirms first passed

/-- Once more identifiers have been given out than there are, nothing is promised. -/
theorem Confirmed.step {st : LinkStep} (hl : l.Confirmed first) (hstep : l.step cfg st = some l') :
    l'.Confirmed first := by
  intro hfew
  have hstepped := stepped hstep
  have hfew₀ : l.issued ≤ 65535 := (issued_le hstepped).trans hfew
  obtain ⟨passed, hl⟩ := hl hfew₀
  cases hstepped with
  | handled hd hunasked hhandle =>
      refine ⟨passed, hl.handle hhandle hfew₀ ?_ (Or.inl hunasked) ?_⟩
      · rintro rfl
        cases hunasked
      · rintro pid rfl
        cases hunasked
  | resumed now hhandle =>
      refine ⟨passed, hl.reconnect.handle hhandle hfew₀ (by simp) (Or.inl rfl) ?_⟩
      intro pid hack
      cases hack
  | read packet rest hline hafter =>
      rw [hafter]
      exact hl.reads hline
  | answered ack replies late hamong hreplies hlate hhandle =>
      refine ⟨passed, (hl.withReplies hreplies hlate).handle hhandle hfew₀
        (by cases ack <;> simp [Ack.op]) (Or.inr ⟨ack, rfl⟩) ?_⟩
      intro pid hack
      cases ack with
      | puback pid' =>
          cases hack
          exact hl.replies pid hamong
      | _ => cases hack

theorem confirmed_start {s : Session} (hqueue : s.inflight = []) (hid : s.nextId = idAt first 0) :
    (start s).Confirmed first := by
  intro _
  refine ⟨[], ?_⟩
  constructor <;> simp [start, Client.start, numbered, issued, hqueue, hid]

/-! ## What the client's application gets -/

/-- QoS 1 messages in the queue. -/
def unconfirmed (l : Link) : List Message := l.session.inflight.filterMap fun e =>
  match e.state with
  | .qos1 p => some p.message
  | _ => none

def givenUp (l : Link) : List Message := l.dropped.map fun msg => msg.publish.message

/-- The number of the message with an identifier, while identifiers are not given again. -/
def numberAt (first pid : Nat) : Nat := (pid + 65534 - first % 65535) % 65535

theorem numberAt_idAt (first : Nat) {j : Nat} (hj : j < 65535) : numberAt first (idAt first j) = j := by
  unfold numberAt idAt
  omega

/-- Before identifiers are given again, the identifier of a PUBLISH finds its message. -/
theorem Tagged.number {p : Publish} (hp : l.Tagged first p) (hfew : l.issued ≤ 65535) :
    ((p.packetId.map (numberAt first)).bind (l.numbered[·]?)) = some p.message := by
  obtain ⟨j, hj, hpid⟩ := hp
  have hlength := (List.getElem?_eq_some_iff.mp hj).1
  rw [issued] at hfew
  rw [hpid, Option.map_some, Option.bind_some, numberAt_idAt first (by omega), hj]

def qos1Numbers (l : Link) : List Nat :=
  (l.numbered.zipIdx.filter fun x => x.1.isQos1).map Prod.snd

theorem mem_qos1Numbers {j : Nat} :
    j ∈ l.qos1Numbers ↔ ∃ m, l.numbered[j]? = some m ∧ m.isQos1 = true := by
  simp [qos1Numbers, List.mem_zipIdx_iff_getElem?]

theorem nodup_qos1Numbers (l : Link) : l.qos1Numbers.Nodup := by
  refine List.Nodup.sublist (List.filter_sublist.map Prod.snd) ?_
  rw [List.zipIdx_map_snd]
  exact List.nodup_range'

/-- Counting numbers is counting messages. -/
theorem filterMap_qos1Numbers (l : Link) :
    l.qos1Numbers.filterMap (l.numbered[·]?) = l.offered.filter Message.isQos1 := by
  have hfirst : l.qos1Numbers.filterMap (l.numbered[·]?) =
      (l.numbered.zipIdx.filter fun x => x.1.isQos1).map Prod.fst := by
    rw [qos1Numbers, List.filterMap_map, ← List.filterMap_eq_map]
    refine List.filterMap_congr fun x hx => ?_
    exact List.mem_zipIdx_iff_getElem?.mp (List.mem_of_mem_filter hx)
  have hfilter : (l.numbered.zipIdx.filter fun x => x.1.isQos1).map Prod.fst =
      l.numbered.filter Message.isQos1 := by
    have hmap := List.filter_map (f := Prod.fst) (p := Message.isQos1) (l := l.numbered.zipIdx)
    rw [List.zipIdx_map_fst] at hmap
    exact hmap.symm
  rw [hfirst, hfilter, numbered, List.filter_filter]
  refine List.filter_congr fun m _ => ?_
  cases hm : m.isQos1 with
  | false => rfl
  | true => rw [Message.takesId_of_isQos1 hm]; rfl

/-- Each QoS 1 message is passed on at least once, unless it is in the queue or given up. -/
theorem Confirms.subperm (hl : l.Confirms first passed) (hfew : l.issued ≤ 65535) :
    (l.offered.filter Message.isQos1).Subperm
      ((l.client.log ++ l.unconfirmed ++ l.givenUp).filter Message.isQos1) := by
  -- the messages in the queue and those given up by number, like those passed on
  let queued := l.session.inflight.filterMap fun e =>
    match e.state with
    | .qos1 p => p.packetId.map (numberAt first)
    | _ => none
  let dead := l.dropped.filterMap fun msg => msg.publish.packetId.map (numberAt first)
  have hqueued : queued.filterMap (l.numbered[·]?) = l.unconfirmed := by
    rw [List.filterMap_filterMap, unconfirmed]
    refine List.filterMap_congr fun e he => ?_
    cases hstate : e.state with
    | qos1 p => exact (hl.queue e he p (by rw [hstate]; rfl)).number hfew
    | _ => rfl
  have hdead : dead.filterMap (l.numbered[·]?) = l.givenUp := by
    rw [List.filterMap_filterMap, givenUp, ← List.filterMap_eq_map]
    exact List.filterMap_congr fun msg hmsg => (hl.dropped msg hmsg).number hfew
  have hpassed : passed.filterMap (l.numbered[·]?) = l.client.log.filter Message.isQos1 := by
    have hlog := congrArg (List.filterMap id) hl.log
    simpa [List.filterMap_map] using hlog
  have hsubset : l.qos1Numbers ⊆ passed ++ queued ++ dead := by
    intro j hj
    obtain ⟨m, hm, hqos⟩ := mem_qos1Numbers.mp hj
    have hlength : j < 65535 := by
      have hlength := (List.getElem?_eq_some_iff.mp hm).1
      rw [issued] at hfew
      omega
    rcases hl.account j m hm hqos with hmem | ⟨e, he, p, hstate, hpid⟩ | ⟨msg, hmsg, hpid, -⟩
    · exact List.mem_append_left _ (List.mem_append_left _ hmem)
    · refine List.mem_append_left _ (List.mem_append_right _ (List.mem_filterMap.mpr ⟨e, he, ?_⟩))
      simp only [hstate, hpid, Option.map_some, numberAt_idAt first hlength]
    · refine List.mem_append_right _ (List.mem_filterMap.mpr ⟨msg, hmsg, ?_⟩)
      rw [hpid, Option.map_some, numberAt_idAt first hlength]
  obtain ⟨numbers, hperm, hsublist⟩ := l.nodup_qos1Numbers.subperm hsubset
  have hmessages : (l.offered.filter Message.isQos1).Subperm
      (l.client.log.filter Message.isQos1 ++ l.unconfirmed ++ l.givenUp) := by
    refine ⟨numbers.filterMap (l.numbered[·]?), ?_, ?_⟩
    · rw [← l.filterMap_qos1Numbers]
      exact hperm.filterMap _
    · have hsub := hsublist.filterMap (l.numbered[·]?)
      rwa [List.filterMap_append, List.filterMap_append, hpassed, hqueued, hdead] at hsub
  have hfiltered := hmessages.filter Message.isQos1
  simpa [List.filter_append, List.filter_filter] using hfiltered

end Link

namespace Subscriber

/-- Whatever else the hub does, a client that keeps to the protocol gets the QoS 1 messages
of its session at least once, as long as identifiers are not used again. -/
theorem qos1_at_least_once (h : Hub) (id : ClientId) (s : Session) (hcons : h.Consistent)
    (hs : h.sessions.byId.lookup id = some s) (hqueue : s.inflight = [])
    (hid : 0 < s.nextId) (hmax : s.nextId ≤ 65535) (steps : List SubscriberStep) :
    Machine.Always (step id)
      (fun b =>
        (∀ s, b.hub.sessions.byId.lookup id = some s → b.link.session.Alike s) ∧
          (b.link.issued ≤ 65535 → (b.link.offered.filter Message.isQos1).Subperm
            ((b.link.client.log ++ b.link.unconfirmed ++ b.link.givenUp).filter Message.isQos1)))
      ⟨h, .start s⟩ steps := by
  refine always_of_link
    (P := fun l => l.issued ≤ 65535 → (l.offered.filter Message.isQos1).Subperm
      ((l.client.log ++ l.unconfirmed ++ l.givenUp).filter Message.isQos1))
    (Link.Confirmed (s.nextId - 1)) (fun _ _ _ _ hl hstep => hl.step hstep) ?_ hcons hs
    (Link.confirmed_start hqueue ?_) steps
  · intro l hl hfew
    obtain ⟨passed, hconfirms⟩ := hl hfew
    exact hconfirms.subperm hfew
  · rw [Link.idAt]
    omega

def sentTwice : List SubscriberStep :=
  [.act (.deliver [(1, .atLeastOnce)] "t" [7] .atLeastOnce 0), .read, .act (.detach 1 1),
    .act (.connect "c" false 60 1), .read, .answer]

theorem qos1_at_least_once_sentTwice :
    ∃ h s b, (Hub.new none ⟨5, 5, 60⟩ 0 0).act (.connect "c" true 60 0) = some h ∧
      h.sessions.byId.lookup 1 = some s ∧
      Machine.run (step 1) ⟨h, .start s⟩ sentTwice = some b ∧
      b.link.client.log = [⟨"t", [7], .atLeastOnce, false⟩, ⟨"t", [7], .atLeastOnce, false⟩] ∧
      Machine.Always (step 1)
        (fun b =>
          (∀ s, b.hub.sessions.byId.lookup 1 = some s → b.link.session.Alike s) ∧
            (b.link.issued ≤ 65535 → (b.link.offered.filter Message.isQos1).Subperm
              ((b.link.client.log ++ b.link.unconfirmed ++ b.link.givenUp).filter Message.isQos1)))
        ⟨h, .start s⟩ sentTwice := by
  refine ⟨_, _, _, rfl, rfl, rfl, rfl, ?_⟩
  refine qos1_at_least_once _ 1 _ ?_ rfl rfl (by decide) (by decide) sentTwice
  exact (Hub.consistent_new none ⟨5, 5, 60⟩ 0 0).effect
    (Hub.act_effect (a := .connect "c" true 60 0) rfl)

end Subscriber

end Relay
