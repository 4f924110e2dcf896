import Relay.Server.Ledger

/-! # The outbound handshakes

What may become of a message under the calls of its session, in any order and with any
packet identifiers and times. A QoS 2 message awaits its PUBREC and then its PUBCOMP; it
may be given up only before the PUBREC, and afterwards it stays until the PUBCOMP.
-/

namespace Relay

open Roster (Record Follows Status)

def Inflight.isQos2 : Inflight → Bool
  | .qos1 _ => false
  | _ => true

namespace Turn

variable {cfg : RetryConfig}

/-- What may become of a message that awaits its PUBREC. -/
inductive FromRec (t : Turn cfg) (r : Record InflightEntry Trace) (p : Publish) : Prop where
  | stays (e : InflightEntry) (after : r.after = some e) (state : e.state = .qos2AwaitRec p)
      (dead : r.note.dead = none)
  | received (pid : Nat) (e : InflightEntry) (call : t.handling = .call (.onPubrec pid))
      (packetId : p.packetId = some pid) (after : r.after = some e)
      (state : e.state = .qos2AwaitComp pid)
      (packet : r.note.packet = if t.before.tx.isSome then some (pubrel pid) else none)
      (dead : r.note.dead = none)
  | died (attempts : Nat)
      (call : (∃ now, t.handling = .call (.tickRetries now)) ∨ t.handling = .drain)
      (after : r.after = none) (packet : r.note.packet = none)
      (dead : r.note.dead = some ⟨p, attempts⟩)

/-- What becomes of a message that awaits its PUBCOMP. -/
structure FromComp (t : Turn cfg) (r : Record InflightEntry Trace) (pid : Nat) : Prop where
  packet : r.note.packet = none ∨ r.note.packet = some (pubrel pid)
  dead : r.note.dead = none
  retransmit : ∀ now, t.handling = .call (.retransmit now) → t.before.tx.isSome = true →
    r.note.packet = some (pubrel pid)
  completed : r.after = none ↔ t.handling = .call (.onPubcomp pid)
  stays : ∀ e, r.after = some e → e.state = .qos2AwaitComp pid

variable {t : Turn cfg} {r : Record InflightEntry Trace} {e : InflightEntry}

theorem Lawful.fromRec (ht : t.Lawful) (hr : r ∈ t.records) (hbefore : r.before = some e)
    {p : Publish} (hstate : e.state = .qos2AwaitRec p) : t.FromRec r p := by
  have hmove := ht.move r hr e hbefore
  generalize hhd : t.handling = hd, hafter : r.after = after, hnote : r.note = note at hmove
  cases hmove with
  | spared => exact .stays e hafter hstate (hnote ▸ rfl)
  | resent now => exact .stays _ hafter hstate (hnote ▸ rfl)
  | retried now => exact .stays _ hafter hstate (hnote ▸ rfl)
  | acked pid q hqos1 =>
      rw [hstate] at hqos1
      cases hqos1
  | received pid q hrec hpid =>
      rw [hstate] at hrec
      cases hrec
      exact .received pid _ hhd hpid hafter rfl (hnote ▸ rfl) (hnote ▸ rfl)
  | completed pid hcomp =>
      rw [hstate] at hcomp
      cases hcomp
  | died now q _ hq =>
      rw [hstate] at hq
      cases hq
      exact .died e.attempts (Or.inl ⟨now, hhd⟩) hafter (hnote ▸ rfl) (hnote ▸ rfl)
  | drained q hq =>
      rw [hstate] at hq
      cases hq
      exact .died e.attempts (Or.inr hhd) hafter (hnote ▸ rfl) (hnote ▸ rfl)

/-- After its PUBREC a message is sent as a PUBREL only, and only its PUBCOMP ends it. -/
theorem Lawful.fromComp (ht : t.Lawful) (hr : r ∈ t.records) (hbefore : r.before = some e)
    {pid : Nat} (hstate : e.state = .qos2AwaitComp pid) : t.FromComp r pid := by
  have hmove := ht.move r hr e hbefore
  have hresend : e.state.redelivery = pubrel pid := by rw [hstate]; rfl
  have hpacket : ∀ online : Bool, (if online then some (pubrel pid) else none) = none ∨
      (if online then some (pubrel pid) else none) = some (pubrel pid) := by
    intro online
    cases online
    · exact Or.inl rfl
    · exact Or.inr rfl
  have hstays : ∀ e₁ : InflightEntry, r.after = some e₁ → e₁.state = e.state →
      ∀ e', r.after = some e' → e'.state = .qos2AwaitComp pid := by
    intro e₁ hafter hsame e' he'
    rw [hafter] at he'
    cases he'
    exact hsame.trans hstate
  generalize hhd : t.handling = hd, hafter : r.after = after, hnote : r.note = note at hmove
  cases hmove with
  | spared hspares =>
      refine ⟨Or.inl (hnote ▸ rfl), hnote ▸ rfl, ?_, ?_, hstays e hafter rfl⟩
      · intro now hcall
        rw [← hhd, hcall] at hspares
        exact hspares.elim
      · rw [hafter, hhd]
        refine iff_of_false (Option.some_ne_none e) ?_
        rintro rfl
        exact hspares hstate
  | resent now =>
      rw [hresend] at hnote
      refine ⟨hnote ▸ hpacket _, hnote ▸ rfl, ?_, by simp [hafter, hhd], hstays _ hafter rfl⟩
      intro _ _ honline
      rw [hnote, honline]
      rfl
  | retried now =>
      rw [hresend] at hnote
      refine ⟨hnote ▸ hpacket _, hnote ▸ rfl, ?_, by simp [hafter, hhd], hstays _ hafter rfl⟩
      intro _ hcall
      rw [hhd] at hcall
      cases hcall
  | acked _ _ hqos1 =>
      rw [hstate] at hqos1
      cases hqos1
  | received _ _ hrec =>
      rw [hstate] at hrec
      cases hrec
  | completed pid' hcomp =>
      rw [hstate] at hcomp
      cases hcomp
      refine ⟨Or.inl (hnote ▸ rfl), hnote ▸ rfl, ?_, iff_of_true hafter hhd, ?_⟩
      · intro _ hcall
        rw [hhd] at hcall
        cases hcall
      · intro e' he'
        rw [hafter] at he'
        cases he'
  | died _ _ _ hq =>
      rw [hstate] at hq
      cases hq
  | drained _ hq =>
      rw [hstate] at hq
      cases hq

/-- An acknowledgement leaves the messages alone that do not wait for it. -/
theorem Lawful.spared (ht : t.Lawful) (hr : r ∈ t.records) (hbefore : r.before = some e)
    (hother : (∃ pid, t.handling = .call (.onPuback pid)) ∧ e.state.isQos2 = true ∨
      ((∃ pid, t.handling = .call (.onPubrec pid)) ∨ ∃ pid, t.handling = .call (.onPubcomp pid)) ∧
        e.state.isQos2 = false) :
    r.after = some e ∧ r.note = .quiet := by
  have hmove := ht.move r hr e hbefore
  generalize hhd : t.handling = hd, r.after = after, r.note = note at hmove hother
  cases hmove with
  | spared => exact ⟨rfl, rfl⟩
  | acked _ p hstate => simp [hstate, Inflight.isQos2] at hother
  | received _ p hstate => simp [hstate, Inflight.isQos2] at hother
  | completed _ hstate => simp [hstate, Inflight.isQos2] at hother
  | _ => simp at hother

/-- How a message came to await its PUBCOMP. -/
theorem Lawful.entered (ht : t.Lawful) (hr : r ∈ t.records) (hafter : r.after = some e) {pid : Nat}
    (hstate : e.state = .qos2AwaitComp pid) :
    ∃ e₀, r.before = some e₀ ∧ (e₀.state = .qos2AwaitComp pid ∨
      ∃ p, e₀.state = .qos2AwaitRec p ∧ p.packetId = some pid ∧
        t.handling = .call (.onPubrec pid)) := by
  cases hbefore : r.before with
  | none =>
      have hbirth := ht.birth r hr hbefore
      rw [hafter] at hbirth
      generalize t.handling = hd, r.note = note at hbirth
      -- a delivery records a message that awaits its first acknowledgement
      cases hbirth with
      | recorded topic payload qos retain now _ hentry =>
          cases qos <;> cases hentry <;> cases hstate
  | some e₀ =>
      refine ⟨e₀, rfl, ?_⟩
      have hmove := ht.move r hr e₀ hbefore
      rw [hafter] at hmove
      generalize t.handling = hd, r.note = note at hmove ⊢
      cases hmove with
      | spared => exact Or.inl hstate
      | resent now => exact Or.inl hstate
      | retried now => exact Or.inl hstate
      | received pid' p hrec hpid =>
          cases hstate
          exact Or.inr ⟨p, hrec, hpid, rfl⟩

end Turn

namespace Watched

variable {cfg : RetryConfig}

/-- The handshakes of the messages, over everything done to the session so far. -/
structure Handshake (w : Watched cfg) : Prop where
  /-- A message has one record in a turn. -/
  names : ∀ t ∈ w.turns, (t.records.map Record.name).Nodup
  fromRec : ∀ t ∈ w.turns, ∀ r ∈ t.records, ∀ e p, r.before = some e →
    e.state = .qos2AwaitRec p → t.FromRec r p
  /-- Only a PUBREC with the message's identifier makes it await its PUBCOMP. -/
  entered : ∀ t ∈ w.turns, ∀ r ∈ t.records, ∀ e pid, r.after = some e →
    e.state = .qos2AwaitComp pid → ∃ e₀, r.before = some e₀ ∧
      (e₀.state = .qos2AwaitComp pid ∨ ∃ p, e₀.state = .qos2AwaitRec p ∧
        p.packetId = some pid ∧ t.handling = .call (.onPubrec pid))
  fromComp : ∀ t ∈ w.turns, ∀ r ∈ t.records, ∀ e pid, r.before = some e →
    e.state = .qos2AwaitComp pid → t.FromComp r pid
  /-- From then on it awaits its PUBCOMP in every turn that it is part of. -/
  later : w.turns.Pairwise fun t t' => ∀ r ∈ t.records, ∀ r' ∈ t'.records, r'.name = r.name →
    ∀ e pid, r.after = some e → e.state = .qos2AwaitComp pid →
      ∃ e', r'.before = some e' ∧ e'.state = .qos2AwaitComp pid
  /-- It is in the queue until a PUBCOMP with its identifier. -/
  stays : ∀ t ∈ w.turns, ∀ r ∈ t.records, ∀ e pid, r.after = some e →
    e.state = .qos2AwaitComp pid →
      (∃ e', (r.name, e') ∈ w.roster.items ∧ e'.state = .qos2AwaitComp pid) ∨
        ∃ t' ∈ w.turns, t'.handling = .call (.onPubcomp pid) ∧
          ∃ r' ∈ t'.records, r'.name = r.name ∧ r'.after = none
  spared : ∀ t ∈ w.turns, ∀ r ∈ t.records, ∀ e, r.before = some e →
    ((∃ pid, t.handling = .call (.onPuback pid)) ∧ e.state.isQos2 = true ∨
      ((∃ pid, t.handling = .call (.onPubrec pid)) ∨ ∃ pid, t.handling = .call (.onPubcomp pid)) ∧
        e.state.isQos2 = false) →
    r.after = some e ∧ r.note = .quiet

variable {s : Session} {w : Watched cfg}

theorem Account.later (hw : w.Account s) :
    w.turns.Pairwise fun t t' => ∀ r ∈ t.records, ∀ r' ∈ t'.records, r'.name = r.name →
      ∀ e pid, r.after = some e → e.state = .qos2AwaitComp pid →
        ∃ e', r'.before = some e' ∧ e'.state = .qos2AwaitComp pid := by
  have hpairs : w.history.Pairwise fun r r' => r'.name = r.name → ∃ a b, r.after = some a ∧
      r'.before = some b ∧ ∀ pid, a.state = .qos2AwaitComp pid → b.state = .qos2AwaitComp pid := by
    refine hw.follows.related (fun _ _ h => h) (fun hab hbc pid h => hbc pid (hab pid h)) ?_
    intro r hr a hbefore b hafter pid hstate
    obtain ⟨t, ht, hrt⟩ := List.mem_flatMap.mp hr
    exact ((hw.lawful t ht).fromComp hrt hbefore hstate).stays b hafter
  refine (List.pairwise_flatMap.mp hpairs).2.imp ?_
  intro t t' hturns r hr r' hr' hname e pid hafter hstate
  obtain ⟨a, b, ha, hb, hkeep⟩ := hturns r hr r' hr' hname
  rw [hafter] at ha
  cases ha
  exact ⟨b, hb, hkeep pid hstate⟩

/-- The message is in the queue, or a turn let it leave. -/
theorem Account.stays (hw : w.Account s) {t : Turn cfg} (ht : t ∈ w.turns)
    {r : Record InflightEntry Trace} (hr : r ∈ t.records) {e : InflightEntry} {pid : Nat}
    (hafter : r.after = some e) (hstate : e.state = .qos2AwaitComp pid) :
    (∃ e', (r.name, e') ∈ w.roster.items ∧ e'.state = .qos2AwaitComp pid) ∨
      ∃ t' ∈ w.turns, t'.handling = .call (.onPubcomp pid) ∧
        ∃ r' ∈ t'.records, r'.name = r.name ∧ r'.after = none := by
  have hkeep : ∀ r ∈ w.history, ∀ a : InflightEntry, r.before = some a →
      a.state = .qos2AwaitComp pid → ∀ b, r.after = some b → b.state = .qos2AwaitComp pid := by
    intro r hr a hbefore ha b hb
    obtain ⟨t, ht, hrt⟩ := List.mem_flatMap.mp hr
    exact ((hw.lawful t ht).fromComp hrt hbefore ha).stays b hb
  rcases hw.follows.settled hkeep (List.mem_flatMap.mpr ⟨t, ht, hr⟩) hafter hstate with
    ⟨e', hlive, he'⟩ | ⟨r', hr', hname, hleft, e', hbefore, he'⟩
  · exact Or.inl ⟨e', w.roster.mem_of_status hlive, he'⟩
  · obtain ⟨t', ht', hrt'⟩ := List.mem_flatMap.mp hr'
    have hcall := ((hw.lawful t' ht').fromComp hrt' hbefore he').completed.mp hleft
    exact Or.inr ⟨t', ht', hcall, r', hrt', hname, hleft⟩

/-- In every run of calls, from any session. -/
theorem handshake_always (cfg : RetryConfig) (s : Session) (handlings : List Handling) :
    Machine.Always step Handshake (start cfg s) handlings := by
  refine Machine.always_of_invariant (Account s) ?_ ?_ ?_
  · exact fun w hd w' hw hstep => hw.step hstep
  · intro w hw
    exact {
      names := fun t ht => (hw.lawful t ht).names
      fromRec := fun t ht r hr e p hbefore hstate => (hw.lawful t ht).fromRec hr hbefore hstate
      entered := fun t ht r hr e pid hafter hstate => (hw.lawful t ht).entered hr hafter hstate
      fromComp := fun t ht r hr e pid hbefore hstate => (hw.lawful t ht).fromComp hr hbefore hstate
      later := hw.later
      stays := fun t ht r hr e pid hafter hstate => hw.stays ht hr hafter hstate
      spared := fun t ht r hr e hbefore hother => (hw.lawful t ht).spared hr hbefore hother }
  · exact account_start s

end Watched

end Relay
