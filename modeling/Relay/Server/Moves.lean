import Relay.Server.Link

/-! # What a step of the link does, message by message

A handling of the session seen from the messages in its queue: where a message in the
queue, a packet on the line or a dead message comes from, and what becomes of a message.
A step of the link is a handling, or takes place at the client.
-/

namespace Relay

/-- The message gets a packet identifier. -/
def Message.takesId (m : Message) : Bool := m.qos ≠ .atMostOnce

namespace Handling.Move

variable {cfg : RetryConfig} {online : Bool} {e : InflightEntry} {hd : Handling}
  {after : Option InflightEntry} {note : Trace}

/-- A PUBLISH in the queue was there before. -/
theorem undelivered (hmove : hd.Move cfg online e after note) {e' : InflightEntry}
    (hafter : after = some e') (hundelivered : e'.state.undelivered ≠ none) : e'.state = e.state := by
  cases hmove with
  | spared => cases hafter; rfl
  | resent now => cases hafter; rfl
  | retried now => cases hafter; rfl
  | received pid p =>
      cases hafter
      exact absurd rfl hundelivered
  | _ => cases hafter

/-- A PUBLISH is only sent again for a message that awaits its first confirmation. -/
theorem publish (hmove : hd.Move cfg online e after note) {p : Publish}
    (hpacket : note.packet = some (.publish p)) : .publish p = e.state.redelivery := by
  have hsent : ∀ packet : Packet, (if online = true then some packet else none) = some (.publish p) →
      packet = .publish p := by
    intro packet h
    split at h
    · exact Option.some.inj h
    · cases h
  cases hmove with
  | resent now => exact (hsent _ hpacket).symm
  | retried now => exact (hsent _ hpacket).symm
  | received pid q => cases hsent _ hpacket
  | _ => cases hpacket

/-- A message that leaves before its first confirmation is given up. -/
theorem dead_or_acked (hmove : hd.Move cfg online e after note) {p : Publish}
    (hundelivered : e.state.undelivered = some p) (hafter : after = none) :
    note.dead = some ⟨p, e.attempts⟩ ∨
      ∃ pid, hd = .call (.onPuback pid) ∧ e.state = .qos1 p ∧ p.packetId = some pid := by
  cases hmove with
  | acked pid q hqos1 hpid =>
      rw [hqos1] at hundelivered
      cases hundelivered
      exact Or.inr ⟨pid, rfl, hqos1, hpid⟩
  | completed pid hcomp => rw [hcomp] at hundelivered; cases hundelivered
  | died now q _ hq => rw [hundelivered] at hq; cases hq; exact Or.inl rfl
  | drained q hq => rw [hundelivered] at hq; cases hq; exact Or.inl rfl
  | _ => cases hafter

theorem dead_of_awaitRec (hmove : hd.Move cfg online e after note) {p : Publish}
    (hstate : e.state = .qos2AwaitRec p) (hafter : after = none) :
    note.dead = some ⟨p, e.attempts⟩ := by
  rcases hmove.dead_or_acked (by rw [hstate]; rfl) hafter with hdead | ⟨pid, -, hqos1, -⟩
  · exact hdead
  · rw [hstate] at hqos1
    cases hqos1

/-- What is given up was in the queue, without any confirmation. -/
theorem undelivered_of_dead (hmove : hd.Move cfg online e after note) {msg : DeadMsg}
    (hdead : note.dead = some msg) : e.state.undelivered = some msg.publish := by
  cases hmove with
  | died now p _ hp => cases hdead; exact hp
  | drained p hp => cases hdead; exact hp
  | _ => cases hdead

/-- A QoS 1 message that stays is as it was. -/
theorem state_of_qos1 {e' : InflightEntry} (hmove : hd.Move cfg online e (some e') note)
    {p : Publish} (hstate : e.state = .qos1 p) : e'.state = .qos1 p := by
  cases hmove with
  | received pid q hrec => rw [hstate] at hrec; cases hrec
  | _ => exact hstate

/-- A message keeps its identifier. -/
theorem packetId {e' : InflightEntry} (hmove : hd.Move cfg online e (some e') note) :
    e'.state.isQos2 = e.state.isQos2 ∧ e'.state.packetId = e.state.packetId := by
  cases hmove with
  | received pid p hstate hpid => rw [hstate]; exact ⟨rfl, hpid.symm⟩
  | _ => exact ⟨rfl, rfl⟩

end Handling.Move

namespace Handling

variable {cfg : RetryConfig} {s : Session} {hd : Handling}

/-- What a delivery records and sends. -/
theorem born_cases {b : InflightEntry × Trace} (hborn : hd.born cfg s = some b) :
    ∃ p : Publish, p.packetId = some s.nextId ∧ hd.offer = some p.message ∧
      (b.1.state = .qos1 p ∧ p.qos = .atLeastOnce ∨
        b.1.state = .qos2AwaitRec p ∧ p.qos = .exactlyOnce) ∧
      b.2.packet = if s.tx.isSome then some (.publish p) else none := by
  cases hd with
  | call op =>
      cases op with
      | deliver topic payload qos retain now =>
          obtain ⟨e, hhead, rfl⟩ := Option.map_eq_some_iff.mp hborn
          refine ⟨s.publishFor topic payload qos retain, ?_, rfl, ?_, rfl⟩
          · cases qos with
            | atMostOnce => cases hhead
            | _ => rfl
          · cases qos with
            | atMostOnce => cases hhead
            | atLeastOnce => cases hhead; exact Or.inl ⟨rfl, rfl⟩
            | exactlyOnce => cases hhead; exact Or.inr ⟨rfl, rfl⟩
      | _ => cases hborn
  | _ => cases hborn

theorem exists_born (cfg : RetryConfig) (s : Session) {m : Message} (hoffer : hd.offer = some m)
    (htakes : m.takesId = true) : ∃ b, hd.born cfg s = some b := by
  cases hd with
  | call op =>
      cases op with
      | deliver topic payload qos retain now =>
          cases hoffer
          cases qos with
          | atMostOnce => cases htakes
          | atLeastOnce => exact ⟨_, rfl⟩
          | exactlyOnce => exact ⟨_, rfl⟩
      | _ => cases hoffer
  | _ => cases hoffer

/-- Packets that belong to no message of the queue are QoS 0 messages. -/
theorem others_qos (hunasked : hd.unasked = true ∨ ∃ ack : Ack, hd = .call ack.op)
    {taken : Option Nat} {p : Publish} (hp : .publish p ∈ hd.others s taken) :
    p.qos = .atMostOnce := by
  cases hd with
  | call op =>
      cases op with
      | deliver topic payload qos retain now =>
          simp only [Handling.others] at hp
          split at hp
          next hqos =>
            cases List.mem_singleton.mp hp
            exact hqos
          next => cases hp
      | onPubrec pid =>
          simp only [Handling.others] at hp
          split at hp
          · cases hp
          · cases List.mem_singleton.mp hp
      | _ => cases hp
  | pass packets =>
      rcases hunasked with hunasked | ⟨ack, hack⟩
      · exact of_decide_eq_true (List.all_eq_true.mp hunasked _ hp)
      · cases hack
  | drain => cases hp

/-- Every message of a roster makes one of its moves. -/
theorem move_of_mem (cfg : RetryConfig) (online : Bool) (hd : Handling)
    {r : Roster InflightEntry} {x : Nat × InflightEntry} (hx : x ∈ r.items) :
    hd.Move cfg online x.2 (hd.fate cfg online (hd.taken r.items) x.1 x.2).1
      (hd.fate cfg online (hd.taken r.items) x.1 x.2).2 := by
  refine Handling.move_fate hd ?_
  rintro pid rfl htaken
  obtain ⟨y, hfind, hname⟩ := Option.map_eq_some_iff.mp htaken
  have hmem : (x.1, y.2) ∈ r.items := hname ▸ List.mem_of_find?_eq_some hfind
  rw [← r.eq_of_mem hmem hx]
  have hawaits := List.find?_some hfind
  exact hawaits

end Handling

/-! ## A handling, message by message -/

namespace Session

variable {cfg : RetryConfig} {s s' : Session} {hd : Handling} {dead : List DeadMsg}

/-- The counter moves on exactly when a message gets an identifier. -/
theorem nextId_handle (hhandle : s.handle cfg hd = some (s', dead)) :
    s'.nextId = if hd.offer.any Message.takesId = true then bumpId s.nextId else s.nextId := by
  cases hd with
  | pass packets =>
      cases hhandle
      rw [foldl_send]
      rfl
  | drain => cases hhandle; rfl
  | call op =>
      cases op with
      | tickRetries now =>
          cases hhandle
          rw [tickRetries_eq]
          rfl
      | deliver topic payload qos retain now =>
          obtain ⟨t, ht, heq⟩ := Option.map_eq_some_iff.mp hhandle
          cases heq
          rw [step, deliver_eq] at ht
          split at ht
          · cases ht
          · cases ht
            by_cases hqos : qos = .atMostOnce <;>
              simp [received, Handling.offer, Message.takesId, hqos]
      | onPubrec pid =>
          cases hhandle
          obtain ⟨queue, packets, heq⟩ := s.exists_onPubrec pid
          rw [heq]
          rfl
      | _ => cases hhandle; rfl

theorem exists_item {e : InflightEntry} (he : e ∈ s.inflight) :
    ∃ n, (n, e) ∈ (Roster.ofList s.inflight).items := by
  rw [← Roster.map_snd_ofList s.inflight] at he
  obtain ⟨⟨n, e'⟩, hx, rfl⟩ := List.mem_map.mp he
  exact ⟨n, hx⟩

theorem mem_of_item {x : Nat × InflightEntry} (hx : x ∈ (Roster.ofList s.inflight).items) :
    x.2 ∈ s.inflight :=
  Roster.map_snd_ofList s.inflight ▸ List.mem_map_of_mem hx

theorem parts (hhandle : s.handle cfg hd = some (s', dead)) :
    Parts cfg s s' dead hd (Roster.ofList s.inflight).items :=
  parts_of_handle (Roster.map_snd_ofList _) (Roster.ofList s.inflight).sorted hhandle

/-- A message in the queue afterwards was there before, or is the one that is delivered. -/
theorem entry_of_handle (hhandle : s.handle cfg hd = some (s', dead)) {e' : InflightEntry}
    (he' : e' ∈ s'.inflight) :
    (∃ e ∈ s.inflight, ∃ note, hd.Move cfg s.tx.isSome e (some e') note) ∨
      ∃ b, hd.born cfg s = some b ∧ e' = b.1 := by
  rw [(parts hhandle).queue] at he'
  rcases List.mem_append.mp he' with hitem | hborn
  · obtain ⟨x, hx, hfate⟩ := List.mem_filterMap.mp hitem
    exact Or.inl ⟨x.2, mem_of_item hx, _, hfate ▸ Handling.move_of_mem cfg _ hd hx⟩
  · obtain ⟨b, hb, rfl⟩ := Option.map_eq_some_iff.mp (Option.mem_toList.mp hborn)
    exact Or.inr ⟨b, hb, rfl⟩

/-- What becomes of a message in the queue: it stays, changed perhaps, or leaves. -/
theorem move_of_handle (hhandle : s.handle cfg hd = some (s', dead)) {e : InflightEntry}
    (he : e ∈ s.inflight) : ∃ after note, hd.Move cfg s.tx.isSome e after note ∧
      (∀ e', after = some e' → e' ∈ s'.inflight) ∧ ∀ msg, note.dead = some msg → msg ∈ dead := by
  obtain ⟨n, hx⟩ := exists_item he
  refine ⟨_, _, Handling.move_of_mem cfg _ hd hx, fun e' he' => ?_, fun msg hmsg => ?_⟩
  · rw [(parts hhandle).queue]
    exact List.mem_append_left _ (List.mem_filterMap.mpr ⟨(n, e), hx, he'⟩)
  · rw [(parts hhandle).dead]
    exact List.mem_filterMap.mpr ⟨(n, e), hx, hmsg⟩

/-- Only unconfirmed messages of the queue are handed back. -/
theorem dead_of_handle (hhandle : s.handle cfg hd = some (s', dead)) {msg : DeadMsg}
    (hmsg : msg ∈ dead) : ∃ e ∈ s.inflight, e.state.undelivered = some msg.publish := by
  rw [(parts hhandle).dead] at hmsg
  obtain ⟨x, hx, hdead⟩ := List.mem_filterMap.mp hmsg
  exact ⟨x.2, mem_of_item hx, (Handling.move_of_mem cfg _ hd hx).undelivered_of_dead hdead⟩

theorem born_of_handle (hhandle : s.handle cfg hd = some (s', dead)) {b : InflightEntry × Trace}
    (hb : hd.born cfg s = some b) : b.1 ∈ s'.inflight := by
  rw [(parts hhandle).queue]
  exact List.mem_append_right _ (by simp [hb])

/-- A PUBLISH put on the line is one in the queue, or the one that is delivered, or one at
QoS 0. -/
theorem publish_of_handle (hattach : hd ≠ .call .attach)
    (hunasked : hd.unasked = true ∨ ∃ ack : Ack, hd = .call ack.op)
    (hhandle : s.handle cfg hd = some (s', dead)) {p : Publish}
    (hp : .publish p ∈ s.putSince s') :
    (∃ e ∈ s.inflight, .publish p = e.state.redelivery) ∨
      (p.packetId = some s.nextId ∧ hd.offer = some p.message ∧ p.qos ≠ .atMostOnce) ∨
        p.qos = .atMostOnce := by
  by_cases hkeeps : hd.keepsChannel = true
  · rw [putSince, (parts hhandle).channel hkeeps] at hp
    cases htx : s.tx with
    | none => simp [htx] at hp
    | some packets =>
        rw [htx, Option.map_some, Option.getD_some, Option.getD_some, List.drop_left] at hp
        rcases List.mem_append.mp hp with hp | hother
        · rcases List.mem_append.mp hp with hitem | hborn
          · obtain ⟨x, hx, hnote⟩ := List.mem_filterMap.mp hitem
            exact Or.inl ⟨x.2, mem_of_item hx, (Handling.move_of_mem cfg _ hd hx).publish hnote⟩
          · obtain ⟨b, hb, hnote⟩ := Option.bind_eq_some_iff.mp (Option.mem_toList.mp hborn)
            obtain ⟨q, hpid, hoffer, hstate, hpacket⟩ := Handling.born_cases hb
            rw [hnote, htx] at hpacket
            cases hpacket
            refine Or.inr (Or.inl ⟨hpid, hoffer, ?_⟩)
            rcases hstate with ⟨-, hqos⟩ | ⟨-, hqos⟩ <;> simp [hqos]
        · exact Or.inr (Or.inr (Handling.others_qos hunasked hother))
  · -- only detaching closes the channel otherwise
    cases hd with
    | call op =>
        cases op with
        | attach => exact absurd rfl hattach
        | detach =>
            cases hhandle
            simp [putSince] at hp
        | _ => exact absurd rfl hkeeps
    | _ => exact absurd rfl hkeeps

end Session

/-! ## A step of the link -/

namespace Link

variable {cfg : RetryConfig} {l l' : Link} {hd : Handling}

theorem exists_of_handle (hhandle : l.handle cfg hd = some l') :
    ∃ s' dead, l.session.handle cfg hd = some (s', dead) ∧
      l' = { session := s'
             client := { l.client with line := l.client.line ++ l.session.putSince s' }
             offered := l.offered ++ hd.offer.toList
             dropped := l.dropped ++ dead } := by
  obtain ⟨out, hout, rfl⟩ := Option.map_eq_some_iff.mp hhandle
  exact ⟨out.1, out.2, hout, rfl⟩

/-- The link with the new channel, before anything is put on it. -/
def reconnect (l : Link) : Link :=
  { l with session := { l.session with tx := some [] }, client := l.client.reconnect [] }

theorem handle_reconnect {now : Nat} (hstep : l.step cfg (.resume now) = some l') :
    l.reconnect.handle cfg (.call (.retransmit now)) = some l' := by
  cases hstep
  simp [handle, Session.handle, Session.step, reconnect, Client.reconnect, Handling.offer,
    Session.putSince, Session.retransmit]

def withReplies (l : Link) (replies late : List Ack) : Link :=
  { l with client := { l.client with replies := replies, late := late } }

def reads (l : Link) (packet : Packet) (rest : List Packet) : Link :=
  { l with client := Client.read { l.client with line := rest } packet }

/-- A step of the link. -/
inductive Stepped (cfg : RetryConfig) (l l' : Link) : Prop where
  | handled (hd : Handling) (unasked : hd.unasked = true) (handle : l.handle cfg hd = some l')
  | resumed (now : Nat) (handle : l.reconnect.handle cfg (.call (.retransmit now)) = some l')
  | read (packet : Packet) (rest : List Packet) (line : l.client.line = packet :: rest)
      (after : l' = l.reads packet rest)
  | answered (ack : Ack) (replies late : List Ack)
      (among : ack ∈ l.client.replies ∨ ack ∈ l.client.late)
      (replies_subset : replies ⊆ l.client.replies) (late_subset : late ⊆ l.client.late)
      (handle : (l.withReplies replies late).handle cfg (.call ack.op) = some l')

/-- Every step of the link is of one of the kinds. -/
theorem stepped {st : LinkStep} (hstep : l.step cfg st = some l') : Stepped cfg l l' := by
  cases st with
  | handle hd =>
      rw [Link.step] at hstep
      split at hstep
      next hunasked => exact .handled hd hunasked hstep
      next => cases hstep
  | resume now => exact .resumed now (handle_reconnect hstep)
  | read =>
      rw [Link.step] at hstep
      split at hstep
      · cases hstep
      next packet rest hline =>
        cases hstep
        exact .read packet rest hline rfl
  | answer =>
      rw [Link.step] at hstep
      split at hstep
      · cases hstep
      next ack rest hreplies =>
        refine .answered ack rest l.client.late ?_ ?_ (List.Subset.refl _) hstep
        · exact Or.inl (hreplies ▸ List.mem_cons_self)
        · rw [hreplies]
          exact List.subset_cons_self ack rest
  | answerLate k =>
      rw [Link.step] at hstep
      split at hstep
      · cases hstep
      next ack hlate =>
        exact .answered ack l.client.replies _ (Or.inr (List.mem_of_getElem? hlate))
          (List.Subset.refl _) (List.eraseIdx_sublist _ _).subset hstep

end Link

end Relay
