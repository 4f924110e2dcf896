import Relay.Foundation.Machine
import Relay.Server.Retry

/-! # Packet identifiers of in-flight messages

The identifiers in the in-flight queue of a session, over every sequence of
calls. Only a QoS 1/2 delivery adds an identifier, the counter's value; the
counter wraps around and never looks at the queue. Identifiers are therefore
distinct exactly as long as every delivery finds the counter's value free.
-/

namespace Relay

/-- The calls on one session, with the connection coming and going. -/
inductive SessionOp where
  | attach
  | detach
  | deliver (topic : String) (payload : Bytes) (qos : QoS) (retain : Bool) (now : Nat)
  | retransmit (now : Nat)
  | onPuback (pid : Nat)
  | onPubrec (pid : Nat)
  | onPubcomp (pid : Nat)
  | tickRetries (now : Nat)

namespace Session

def step (cfg : RetryConfig) (s : Session) : SessionOp → Option Session
  | .attach => some { s with tx := some [] }
  | .detach => some { s with tx := none }
  | .deliver topic payload qos retain now => s.deliver topic payload qos retain now cfg
  | .retransmit now => some (s.retransmit now cfg)
  | .onPuback pid => some (s.onPuback pid)
  | .onPubrec pid => some (s.onPubrec pid)
  | .onPubcomp pid => some (s.onPubcomp pid)
  | .tickRetries now => some (s.tickRetries now cfg).1

def packetIds (s : Session) : List (Option Nat) := s.inflight.map fun e => e.state.packetId

/-- The counter's value is not in flight when a call allocates it. -/
def FreeId (s : Session) : SessionOp → Prop
  | .deliver _ _ qos _ _ => qos ≠ .atMostOnce → some s.nextId ∉ s.packetIds
  | _ => True

/-! ## One call -/

theorem packetIds_received (s : Session) (topic : String) (payload : Bytes) (qos : QoS)
    (retain : Bool) (now : Nat) (cfg : RetryConfig) :
    (s.received topic payload qos retain now cfg).packetIds =
      s.packetIds ++ if qos = .atMostOnce then [] else [some s.nextId] := by
  cases qos <;>
    simp [packetIds, received, entriesFor, publishFor, makePublish, Inflight.packetId]

theorem packetIds_onPubrec (s : Session) (pid : Nat) : (s.onPubrec pid).packetIds = s.packetIds := by
  have hkeep : ∀ queue queue' : List InflightEntry, awaitComp pid queue = some queue' →
      queue'.map (fun e => e.state.packetId) = queue.map fun e => e.state.packetId := by
    intro queue
    induction queue with
    | nil => intro queue' h; cases h
    | cons e rest ih =>
        intro queue' h
        unfold awaitComp at h
        split at h
        next p hstate =>
          split at h
          next hpid =>
            cases h
            simp [hstate, Inflight.packetId, hpid]
          next =>
            obtain ⟨tail, htail, rfl⟩ := Option.map_eq_some_iff.mp h
            simp [ih tail htail]
        next =>
          obtain ⟨tail, htail, rfl⟩ := Option.map_eq_some_iff.mp h
          simp [ih tail htail]
  unfold onPubrec
  split
  next queue hqueue => exact hkeep s.inflight queue hqueue
  next => split <;> rfl

/-- A tick takes identifiers out of flight and puts none in. -/
theorem packetIds_tickRetries (s : Session) (now : Nat) (cfg : RetryConfig) :
    (s.tickRetries now cfg).1.packetIds.Sublist s.packetIds := by
  rw [tickRetries_eq]
  simp only [packetIds]
  induction s.inflight with
  | nil => exact List.Sublist.refl _
  | cons e rest ih =>
      rw [List.filterMap_cons]
      unfold InflightEntry.ticked
      split_ifs
      · exact ih.cons_cons _
      · exact ih.cons _
      · exact ih.cons_cons _

/-- What a call that allocates nothing does: identifiers only leave, the counter
stays. -/
theorem step_of_not_deliver {cfg : RetryConfig} {s s' : Session} {op : SessionOp}
    (hstep : s.step cfg op = some s')
    (hop : ∀ topic payload qos retain now, op = .deliver topic payload qos retain now →
      qos = .atMostOnce) :
    s'.packetIds.Sublist s.packetIds ∧ s'.nextId = s.nextId := by
  cases op with
  | attach => cases hstep; exact ⟨List.Sublist.refl _, rfl⟩
  | detach => cases hstep; exact ⟨List.Sublist.refl _, rfl⟩
  | deliver topic payload qos retain now =>
      obtain rfl := hop topic payload qos retain now rfl
      cases hstep
      exact ⟨List.Sublist.refl _, rfl⟩
  | retransmit now =>
      cases hstep
      refine ⟨?_, rfl⟩
      simp [packetIds, retransmit, Function.comp_def]
  | onPuback pid =>
      cases hstep
      exact ⟨List.filter_sublist.map _, rfl⟩
  | onPubrec pid =>
      cases hstep
      refine ⟨by rw [packetIds_onPubrec], ?_⟩
      obtain ⟨queue, packets, hpubrec⟩ := s.exists_onPubrec pid
      rw [hpubrec]
  | onPubcomp pid =>
      cases hstep
      exact ⟨List.filter_sublist.map _, rfl⟩
  | tickRetries now =>
      cases hstep
      exact ⟨packetIds_tickRetries s now cfg, rfl⟩

/-- A QoS 1/2 delivery appends the counter's value and moves the counter on. -/
theorem step_deliver (cfg : RetryConfig) {s : Session} (hid : s.nextId ≠ 0) (topic : String)
    (payload : Bytes) {qos : QoS} (hqos : qos ≠ .atMostOnce) (retain : Bool) (now : Nat) :
    ∃ s', s.step cfg (.deliver topic payload qos retain now) = some s' ∧
      s'.packetIds = s.packetIds ++ [some s.nextId] ∧ s'.nextId = bumpId s.nextId := by
  refine ⟨s.received topic payload qos retain now cfg, ?_, ?_, ?_⟩
  · rw [step, deliver_eq, if_neg (fun h => hid h.2)]
  · rw [packetIds_received, if_neg hqos]
  · simp [received, hqos]

/-- Every call keeps the counter away from 0. -/
theorem step_nextId_ne_zero {cfg : RetryConfig} {s s' : Session} {op : SessionOp}
    (hid : s.nextId ≠ 0) (hstep : s.step cfg op = some s') : s'.nextId ≠ 0 := by
  by_cases hop : ∀ topic payload qos retain now, op = .deliver topic payload qos retain now →
      qos = .atMostOnce
  · rw [(step_of_not_deliver hstep hop).2]
    exact hid
  · push Not at hop
    obtain ⟨topic, payload, qos, retain, now, rfl, hqos⟩ := hop
    obtain ⟨t, ht, _, hnext⟩ := step_deliver cfg hid topic payload hqos retain now
    rw [ht] at hstep
    cases hstep
    rw [hnext]
    exact Nat.pos_iff_ne_zero.mp (bumpId_pos _)

/-! ## Distinct identifiers -/

/-- No identifier is in flight twice, so an acknowledgement releases at most one
message. -/
structure UniqueIds (s : Session) : Prop where
  nodup : s.packetIds.Nodup
  onPuback : ∀ pid, s.inflight.length ≤ (s.onPuback pid).inflight.length + 1
  onPubcomp : ∀ pid, s.inflight.length ≤ (s.onPubcomp pid).inflight.length + 1

/-- With distinct identifiers, dropping only entries of one identifier drops at
most one entry. -/
theorem length_le_filter_add_one {queue : List InflightEntry} {keep : InflightEntry → Bool}
    (pid : Nat) (hnodup : (queue.map fun e => e.state.packetId).Nodup)
    (hkeep : ∀ e, keep e = false → e.state.packetId = some pid) :
    queue.length ≤ (queue.filter keep).length + 1 := by
  induction queue with
  | nil => exact Nat.zero_le _
  | cons e rest ih =>
      rw [List.map_cons, List.nodup_cons] at hnodup
      by_cases he : keep e = true
      · have hrest := ih hnodup.2
        rw [List.filter_cons_of_pos he, List.length_cons, List.length_cons]
        omega
      · -- the entry dropped here is the only one with its identifier
        have hall : rest.filter keep = rest := by
          rw [List.filter_eq_self]
          intro e' he'
          by_contra hdrop
          apply hnodup.1
          rw [hkeep e (by simpa using he), ← hkeep e' (by simpa using hdrop)]
          exact List.mem_map_of_mem he'
        rw [List.filter_cons_of_neg he, hall, List.length_cons]

theorem UniqueIds.of_nodup {s : Session} (hnodup : s.packetIds.Nodup) : s.UniqueIds where
  nodup := hnodup
  onPuback pid := by
    apply length_le_filter_add_one pid hnodup
    intro e he
    split at he
    next p hstate => simpa [hstate, Inflight.packetId] using he
    next => cases he
  onPubcomp pid := by
    apply length_le_filter_add_one pid hnodup
    intro e he
    have hstate : e.state = .qos2AwaitComp pid := by simpa using he
    simp [hstate, Inflight.packetId]

/-- Out of distinct identifiers, a call keeps them distinct exactly if the
identifier it allocates was free. -/
theorem freeId_iff_step (cfg : RetryConfig) (s : Session) (op : SessionOp) (hid : s.nextId ≠ 0)
    (hunique : s.UniqueIds) : s.FreeId op ↔ ∀ s', s.step cfg op = some s' → s'.UniqueIds := by
  by_cases hop : ∀ topic payload qos retain now, op = .deliver topic payload qos retain now →
      qos = .atMostOnce
  · constructor
    · intro _ s' hstep
      exact .of_nodup ((step_of_not_deliver hstep hop).1.nodup hunique.nodup)
    · intro _
      cases op with
      | deliver topic payload qos retain now =>
          exact fun hqos => absurd (hop topic payload qos retain now rfl) hqos
      | _ => trivial
  · push Not at hop
    obtain ⟨topic, payload, qos, retain, now, rfl, hqos⟩ := hop
    obtain ⟨t, ht, hids, _⟩ := step_deliver cfg hid topic payload hqos retain now
    -- the only identifier added is the value of the counter
    have hnodup : t.packetIds.Nodup ↔ some s.nextId ∉ s.packetIds := by
      rw [hids, List.nodup_append_comm, List.singleton_append, List.nodup_cons]
      exact and_iff_left hunique.nodup
    constructor
    · intro hfree s' hs'
      rw [ht] at hs'
      cases hs'
      exact .of_nodup (hnodup.mpr (hfree hqos))
    · intro hall _
      exact hnodup.mp (hall t ht).nodup

/-- Over every sequence of calls on a new session: the identifiers in flight are
distinct in every state passed through exactly if each QoS 1/2 delivery found the
counter's value free. -/
theorem packetIds_unique_iff (cfg : RetryConfig) (clientId : String)
    (tx : Option (List Packet)) (expirySecs generation : Nat) (ops : List SessionOp) :
    Machine.Always (step cfg) UniqueIds (Session.new clientId tx expirySecs generation) ops ↔
      Machine.Meets (step cfg) FreeId (Session.new clientId tx expirySecs generation) ops := by
  apply Machine.always_iff_meets fun s => s.nextId ≠ 0
  · exact fun s op s' hid hstep => step_nextId_ne_zero hid hstep
  · exact fun s op hid hunique => freeId_iff_step cfg s op hid hunique
  · exact Nat.one_ne_zero
  · exact .of_nodup List.nodup_nil

/-! ## The wrapped counter -/

theorem bumpId_mod (k : Nat) : bumpId (k % 65535 + 1) = (k + 1) % 65535 + 1 := by
  unfold bumpId u16Bound
  split <;> omega

/-- The identifiers of a queue that only grows: the counter's values in turn. -/
theorem run_deliver_packetIds (cfg : RetryConfig) (s : Session) (hfresh : s.nextId = 1)
    (hempty : s.inflight = []) (topic : String) (payload : Bytes) {qos : QoS}
    (hqos : qos ≠ .atMostOnce) (retain : Bool) (now n : Nat) :
    ∃ t, Machine.run (step cfg) s (List.replicate n (.deliver topic payload qos retain now)) =
        some t ∧ t.nextId = n % 65535 + 1 ∧
      t.packetIds = (List.range n).map fun k => some (k % 65535 + 1) := by
  induction n with
  | zero => exact ⟨s, rfl, hfresh, by simp [packetIds, hempty]⟩
  | succ n ih =>
      obtain ⟨t, hrun, hnext, hids⟩ := ih
      have hid : t.nextId ≠ 0 := by omega
      obtain ⟨t', hstep, hids', hnext'⟩ :=
        step_deliver cfg hid topic payload hqos retain now
      refine ⟨t', ?_, ?_, ?_⟩
      · rw [List.replicate_succ', Machine.run_append hrun]
        simp [Machine.run, hstep]
      · rw [hnext', hnext, bumpId_mod]
      · rw [hids', hids, hnext, List.range_succ, List.map_append, List.map_singleton]

/-- An offline subscriber with 65536 queued messages has identifier 1 twice. -/
theorem packetIds_repeat_after_wrap :
    ∃ t, Machine.run (step ⟨5, 5000000000, 60000000000⟩) (Session.new "c" none 3600 1)
        (List.replicate 65536 (.deliver "t" [] .atLeastOnce false 0)) = some t ∧
      ¬ t.packetIds.Nodup := by
  obtain ⟨t, hrun, _, hids⟩ := run_deliver_packetIds ⟨5, 5000000000, 60000000000⟩
    (Session.new "c" none 3600 1) rfl rfl "t" [] (show QoS.atLeastOnce ≠ .atMostOnce by decide)
    false 0 65536
  refine ⟨t, hrun, ?_⟩
  intro hnodup
  rw [hids, List.nodup_map_iff_inj_on List.nodup_range] at hnodup
  have hsame := hnodup 0 (List.mem_range.mpr (by omega)) 65535 (List.mem_range.mpr (by omega)) rfl
  omega

end Session

end Relay
