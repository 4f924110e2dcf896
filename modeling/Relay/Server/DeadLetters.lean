import Relay.Server.EachSession
import Relay.Server.EventLog
import Relay.Server.Snapshots

/-! # Dead letters

Where an awaited message is on disk: in the in-flight row of its client, or among
the dead letters. Recording dead messages republishes each of them, so that on the
way other sessions change and their rows are written again.
-/

namespace Relay

/-- The session has this message in its queue and no confirmation of it. -/
def Session.Awaits (s : Session) (p : Publish) : Prop :=
  ∃ e ∈ s.inflight, e.state.undelivered = some p

namespace Storage

/-- The message is in the queue that an in-flight row is loaded as. -/
def RowHolds (p : Publish) (row : Option Bytes) : Prop :=
  ∃ blob, row = some blob ∧ ∀ now cfg, ∃ nextId queue,
    decodeInflight blob now cfg = some (nextId, queue) ∧
      ∃ e ∈ queue, e.state.undelivered = some p

def DeadLettered (st : Storage) (client : String) (p : Publish) : Prop :=
  ∃ key : Nat, ∃ ts reason attempts, st.deadLetters[key]? =
    some (encodeDeadLetter ts client p.topic reason attempts p.qos p.payload)

/-- A restart on this store finds the message. -/
def Keeps (st : Storage) (client : String) (p : Publish) : Prop :=
  RowHolds p st.inflight[client]? ∨ st.DeadLettered client p

/-- The row of a session that is written holds what the session awaits. -/
theorem rowHolds_encodeInflight {s : Session} (hs : s.Writable)
    (hfits : ∀ e ∈ s.inflight, e.state.Fits) {p : Publish} (hp : s.Awaits p) :
    RowHolds p (some s.encodeInflight) := by
  obtain ⟨e, he, hstate⟩ := hp
  refine ⟨_, rfl, fun now cfg => ⟨_, _, decodeInflight_encodeInflight hs.lt hs.queued hfits now cfg,
    e.rearm now cfg, List.mem_map_of_mem he, hstate⟩⟩

end Storage

namespace PersistOp

def deadLetter? : PersistOp → Option Bytes
  | .appendDeadLetter blob => some blob
  | _ => none

/-- The write that records a dead message of a client. -/
def recordOf (reason : String) (ts : Nat) (entry : String × DeadMsg) : PersistOp :=
  .appendDeadLetter (encodeDeadLetter ts entry.1 entry.2.publish.topic reason entry.2.attempts
    entry.2.publish.qos entry.2.publish.payload)

/-- The write leaves the message in the in-flight row of the client. -/
def Spares (client : String) (p : Publish) (op : PersistOp) : Prop :=
  ∀ row, Storage.RowHolds p row → Storage.RowHolds p (op.inflightRow client row)

end PersistOp

namespace Storage

theorem rowHolds_foldl {client : String} {p : Publish} {ops : List PersistOp}
    (hops : ∀ op ∈ ops, op.Spares client p) {st : Storage}
    (hst : RowHolds p st.inflight[client]?) :
    RowHolds p (ops.foldl applyPersistOp st).inflight[client]? := by
  induction ops generalizing st with
  | nil => exact hst
  | cons op rest ih =>
      rw [List.forall_mem_cons] at hops
      apply ih hops.2
      rw [inflight_applyPersistOp]
      exact hops.1 _ hst

/-! ## Appending dead letters -/

/-- A dead letter is appended after the last one; no other write touches the table. -/
theorem deadLetters_applyPersistOp (st : Storage) (op : PersistOp) :
    (st.applyPersistOp op).deadLetters =
      match op.deadLetter? with
      | some blob => st.deadLetters.insert (nextKey st.deadLetters) blob
      | none => st.deadLetters := by
  cases op with
  | putInflight clientId blob =>
      simp only [applyPersistOp, putInflight, PersistOp.deadLetter?]
      split <;> rfl
  | putRetained topic payload qos =>
      simp only [applyPersistOp, putRetained, PersistOp.deadLetter?]
      split <;> rfl
  | _ => rfl

/-- While there are offsets left, a write adds at most one row at the end. -/
theorem toList_deadLetters_applyPersistOp {st : Storage}
    (hroom : Relay.nextOffset st.deadLetters.toList < u64Bound) (op : PersistOp) :
    (st.applyPersistOp op).deadLetters.toList =
      st.deadLetters.toList ++
        op.deadLetter?.toList.map fun blob => (Relay.nextOffset st.deadLetters.toList, blob) := by
  rw [deadLetters_applyPersistOp]
  cases op.deadLetter? with
  | none => simp
  | some blob => exact toList_insert_nextKey blob hroom

/-- As long as the keys last, rows stay and every dead letter among the writes
gets one. -/
theorem deadLetters_foldl {ops : List PersistOp} {st : Storage}
    (hroom : Relay.nextOffset st.deadLetters.toList + ops.length ≤ u64Bound) :
    (∀ row ∈ st.deadLetters.toList, row ∈ (ops.foldl applyPersistOp st).deadLetters.toList) ∧
      ∀ blob, .appendDeadLetter blob ∈ ops →
        ∃ key, (key, blob) ∈ (ops.foldl applyPersistOp st).deadLetters.toList := by
  induction ops generalizing st with
  | nil => exact ⟨fun _ hrow => hrow, fun _ hmem => nomatch hmem⟩
  | cons op rest ih =>
      rw [List.length_cons] at hroom
      have hleft : Relay.nextOffset st.deadLetters.toList < u64Bound := by omega
      have hfirst := toList_deadLetters_applyPersistOp hleft op
      have hnext : Relay.nextOffset (st.applyPersistOp op).deadLetters.toList ≤
          Relay.nextOffset st.deadLetters.toList + 1 := by
        rw [hfirst]
        cases op.deadLetter? with
        | none => simp
        | some blob => simp [Relay.nextOffset]
      have hroom' : Relay.nextOffset (st.applyPersistOp op).deadLetters.toList + rest.length ≤
          u64Bound := by omega
      obtain ⟨hkept, hadded⟩ := ih hroom'
      refine ⟨fun row hrow => hkept row ?_, fun blob hblob => ?_⟩
      · rw [hfirst]
        exact List.mem_append_left _ hrow
      · rcases List.mem_cons.mp hblob with rfl | hrest
        · refine ⟨Relay.nextOffset st.deadLetters.toList, hkept _ ?_⟩
          rw [hfirst]
          exact List.mem_append_right _ (List.mem_singleton_self _)
        · exact hadded blob hrest

/-- A record among the writes is in the table in the end, as long as the numbers do not
run out. -/
theorem deadLettered_foldl {ops : List PersistOp} {st : Storage}
    (hroom : Relay.nextOffset st.deadLetters.toList + ops.length ≤ u64Bound) {reason : String} {ts : Nat}
    {entry : String × DeadMsg} (hop : .recordOf reason ts entry ∈ ops) :
    (ops.foldl applyPersistOp st).DeadLettered entry.1 entry.2.publish := by
  obtain ⟨key, hkey⟩ := (deadLetters_foldl hroom).2 _ hop
  exact ⟨key, ts, reason, entry.2.attempts, Std.TreeMap.mem_toList_iff_getElem?_eq_some.mp hkey⟩

end Storage

namespace Hub

/-! ## Recording dead messages -/

/-- A property of sessions that deliveries of the given messages keep, and a
property of writes that the snapshots of such sessions, events and dead letters
have. -/
structure Records (Sends : String → Bytes → Prop) (P : Session → Prop) (Q : PersistOp → Prop) :
    Prop where
  delivered : ∀ {s s' : Session} {topic payload qos now cfg}, Sends topic payload →
    s.deliver topic payload qos false now cfg = some s' → P s → P s'
  snapshot : ∀ s, P s → Q (.putInflight s.clientId s.encodeInflight)
  event : ∀ blob retention, Q (.appendEvent blob retention)
  record : ∀ blob, Q (.appendDeadLetter blob)

section

variable {Sends : String → Bytes → Prop} {P : Session → Prop} {Q : PersistOp → Prop}
  (hrecords : Records Sends P Q)

/-- The state of the delivery loop: the property holds of every session, and the
snapshots are those of such sessions. -/
structure FanoutEach (P : Session → Prop) (Q : PersistOp → Prop) (f : Fanout) : Prop where
  each : f.hub.Each P
  snapshots : ∀ snapshot ∈ f.toPersist, Q (.putInflight snapshot.1 snapshot.2)

include hrecords

/-- One target of the delivery loop. -/
theorem Records.deliverTo {topic : String} {payload : Bytes} (hsends : Sends topic payload)
    {msgQos : QoS} {now : Nat} {f f' : Fanout} (hf : FanoutEach P Q f) {target : ClientId × QoS}
    (hdeliver : Hub.deliverTo topic payload msgQos now f target = some f') :
    FanoutEach P Q f' := by
  unfold Hub.deliverTo at hdeliver
  split at hdeliver
  · cases hdeliver
    exact hf
  next s hs =>
    obtain ⟨s', hs', heq⟩ := Option.bind_eq_some_iff.mp hdeliver
    cases heq
    have hP := hrecords.delivered hsends hs' (hf.each target.1 s hs)
    refine ⟨hf.each.set target.1 hP, fun snapshot hsnapshot => ?_⟩
    rcases List.mem_append.mp hsnapshot with hold | hnew
    · exact hf.snapshots snapshot hold
    · rw [Option.mem_toList] at hnew
      split at hnew
      · cases hnew
      · unfold snapshotInflight at hnew
        split at hnew
        · cases hnew
          exact hrecords.snapshot s' hP
        · cases hnew

theorem Records.deliverAll {topic : String} {payload : Bytes} (hsends : Sends topic payload)
    {msgQos : QoS} {now : Nat} {targets : List (ClientId × QoS)} {f f' : Fanout}
    (hf : FanoutEach P Q f)
    (hdeliver : targets.foldlM (Hub.deliverTo topic payload msgQos now) f = some f') :
    FanoutEach P Q f' := by
  induction targets generalizing f with
  | nil =>
      cases hdeliver
      exact hf
  | cons target rest ih =>
      rw [List.foldlM_cons] at hdeliver
      obtain ⟨f₁, hfirst, hrest⟩ := Option.bind_eq_some_iff.mp hdeliver
      exact ih (hrecords.deliverTo hsends hf hfirst) hrest

/-- A publish keeps the property of the sessions and queues writes of the kind. -/
theorem Records.publish {h h' : Hub} (heach : h.Each P) {topic : String} {payload : Bytes}
    (hsends : Sends topic payload) {msgQos : QoS} {clock : Clock} {n : Nat}
    (hpublish : h.publish topic payload msgQos false clock = some (n, h')) :
    h'.Each P ∧ QueuesAll Q h h' := by
  have hjournal : QueuesAll Q h (h.announce topic payload msgQos false clock.ts) :=
    queuesAll_announce (fun hretain => absurd hretain Bool.false_ne_true) hrecords.event _
  rw [Hub.publish, fanOut_eq] at hpublish
  obtain ⟨f, hf, heq⟩ := Option.map_eq_some_iff.mp hpublish
  cases heq
  have hstart : FanoutEach P Q
      ⟨0, [], ((h.announce topic payload msgQos false clock.ts).routeTopic topic).2⟩ := by
    refine ⟨fun i s hs => heach i s ?_, List.forall_mem_nil _⟩
    simpa only [routeTopic, sessions_announce] using hs
  have hend := hrecords.deliverAll hsends hstart hf
  obtain ⟨hdisk, hmax⟩ := disk_deliverAll hf
  refine ⟨fun i s hs => hend.each i s ?_, (hjournal.trans_same hdisk hmax).writeAll hend.snapshots⟩
  rwa [sessions_writeAll] at hs

structure Recorded (Q : PersistOp → Prop) (reason : String) (dead : List (String × DeadMsg))
    (ops : List PersistOp) : Prop where
  all : ∀ op ∈ ops, Q op
  each : ∀ entry ∈ dead, isDlqTopic entry.2.publish.topic = false →
    ∃ ts, PersistOp.recordOf reason ts entry ∈ ops

/-- A dead letter queues its record and whatever its own publish queues. -/
theorem Records.deadLetter {h h' : Hub} (heach : h.Each P) {reason : String}
    {entry : String × DeadMsg} {clock : Clock}
    (hsends : Sends (dlqTopic entry.1 entry.2.publish.topic) entry.2.publish.payload)
    (hdead : h.deadLetter entry.1 entry.2 reason clock = some h') :
    h'.Each P ∧ ∃ ops, Queues h ops h' ∧ Recorded Q reason [entry] ops := by
  unfold Hub.deadLetter at hdead
  split at hdead
  next hdlq =>
    cases hdead
    refine ⟨heach, [], queues_nil rfl rfl, fun _ hmem => (nomatch hmem), fun e he hnot => ?_⟩
    rw [List.mem_singleton.mp he, hdlq] at hnot
    cases hnot
  next =>
    obtain ⟨⟨n, h₁⟩, hpublish, rfl⟩ := Option.map_eq_some_iff.mp hdead
    have hrecord : Queues h ([] ++ [.recordOf reason clock.ts entry])
        (h.enqueue (.recordOf reason clock.ts entry)) := (queues_nil rfl rfl).enqueue _
    have heach₁ : (h.enqueue (.recordOf reason clock.ts entry)).Each P := heach
    obtain ⟨heach', ops, hops, hall⟩ := hrecords.publish heach₁ hsends hpublish
    refine ⟨heach', _, hrecord.trans hops, List.forall_mem_append.mpr ⟨?_, hall⟩,
      fun e he _ => ⟨clock.ts, ?_⟩⟩
    · intro op hop
      rw [List.mem_singleton.mp hop]
      exact hrecords.record _
    · rw [List.mem_singleton.mp he]
      exact List.mem_cons_self

theorem Records.deadLetterAll {h h' : Hub} (heach : h.Each P) {reason : String}
    {dead : List (String × DeadMsg)} {clock : Nat → Clock}
    (hsends : ∀ entry ∈ dead,
      Sends (dlqTopic entry.1 entry.2.publish.topic) entry.2.publish.payload)
    (hdead : h.deadLetterAll reason dead clock = some h') :
    ∃ ops, Queues h ops h' ∧ Recorded Q reason dead ops := by
  induction dead generalizing h clock with
  | nil =>
      cases hdead
      exact ⟨[], queues_nil rfl rfl, fun _ hmem => (nomatch hmem), fun _ hmem => nomatch hmem⟩
  | cons entry rest ih =>
      rw [List.forall_mem_cons] at hsends
      obtain ⟨h₁, hfirst, hrest⟩ := Option.bind_eq_some_iff.mp hdead
      obtain ⟨heach₁, ops₁, hops₁, hrec₁⟩ := hrecords.deadLetter heach hsends.1 hfirst
      obtain ⟨ops₂, hops₂, hrec₂⟩ := ih heach₁ hsends.2 hrest
      refine ⟨_, hops₁.trans hops₂, List.forall_mem_append.mpr ⟨hrec₁.all, hrec₂.all⟩,
        fun e he hnot => ?_⟩
      rcases List.mem_cons.mp he with rfl | he
      · obtain ⟨ts, hts⟩ := hrec₁.each e (List.mem_singleton_self e) hnot
        exact ⟨ts, List.mem_append_left _ hts⟩
      · obtain ⟨ts, hts⟩ := hrec₂.each e he hnot
        exact ⟨ts, List.mem_append_right _ hts⟩

end

end Hub

end Relay
