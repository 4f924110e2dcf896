import Relay.Server.DeadLetters
import Relay.Server.Startup

/-! # From the in-flight queue to the dead letters

A session that expires and a message that runs out of attempts take messages out
of the in-flight row of their client, and the hub records each of them as a dead
letter. The row and the record are separate writes of the worker's queue, so a
crash can fall between them. What is on disk after a crash is what a beginning of
the queue has written.
-/

namespace Relay

namespace Hub

/-! ## The two operations -/

/-- An expiry purge of a session, or one round of the retry timer. -/
inductive Handover where
  | expiry (id : ClientId) (generation : Nat) (clock : Nat → Clock)
  | retries (clock : Nat → Clock)

def handOver (h : Hub) : Handover → Option Hub
  | .expiry id generation clock => h.purgeIfIdle id generation clock
  | .retries clock => h.runRetries clock

/-- The messages an operation takes out of the queues, and the hub before they
are recorded. -/
def takeOut (h : Hub) : Handover → List (String × DeadMsg) × Hub
  | .expiry id generation _ => h.expire id generation
  | .retries clock =>
      ((h.tickAll (clock 0).now).1, (h.tickAll (clock 0).now).2.2.writeAll
        (h.tickAll (clock 0).now).2.1)

/-- Both operations take messages out and dead-letter them one after the other. -/
theorem handOver_eq (h : Hub) (op : Handover) :
    ∃ reason clock, h.handOver op =
      (h.takeOut op).2.deadLetterAll reason (h.takeOut op).1 clock := by
  cases op with
  | expiry id generation clock => exact ⟨_, _, rfl⟩
  | retries clock => exact ⟨_, _, rfl⟩

theorem reaches_takeOut (h : Hub) (op : Handover) : h.Reaches (h.takeOut op).2 := by
  cases op with
  | expiry id generation clock => exact .single (.expire id generation) rfl
  | retries clock =>
      exact (Machine.Reaches.single (.tick (clock 0).now) rfl).trans (reaches_writeAll _ _)

end Hub

/-! ## What is taken out and what stays -/

namespace InflightEntry

theorem state_ticked {e e' : InflightEntry} {now : Nat} {cfg : RetryConfig}
    (hticked : e.ticked now cfg = some e') : e'.state = e.state := by
  unfold ticked at hticked
  split_ifs at hticked
  · cases hticked
    rfl
  · cases hticked
    rfl

/-- Only unconfirmed messages are given up. -/
theorem undelivered_of_tickedDead {e : InflightEntry} {now : Nat} {cfg : RetryConfig}
    {msg : DeadMsg} (hdead : e.tickedDead now cfg = some msg) :
    e.state.undelivered = some msg.publish := by
  unfold tickedDead deadNow at hdead
  split at hdead
  · cases hdead
  · obtain ⟨p, hp, hsome⟩ := Option.bind_eq_some_iff.mp hdead
    split at hsome
    · cases hsome
      exact hp
    · cases hsome

/-- An entry that awaits its first confirmation stays or becomes a dead message. -/
theorem ticked_or_dead {e : InflightEntry} {p : Publish} (hp : e.state.undelivered = some p)
    (now : Nat) (cfg : RetryConfig) :
    (∃ e', e.ticked now cfg = some e') ∨ e.tickedDead now cfg = some ⟨p, e.attempts⟩ := by
  unfold ticked tickedDead deadNow
  rw [hp, Option.bind_some]
  by_cases hdue : now < e.nextDue
  · exact Or.inl ⟨e, if_pos hdue⟩
  · rw [if_neg hdue, if_neg hdue]
    split
    · exact Or.inr rfl
    · exact Or.inl ⟨_, rfl⟩

end InflightEntry

namespace Hub

theorem tickSession_inflight (h : Hub) (now : Nat) (s : Session) {e : InflightEntry}
    (he : e ∈ (h.tickSession now s).1.inflight) : ∃ old ∈ s.inflight, old.state = e.state := by
  unfold tickSession at he
  split at he
  · exact ⟨e, he, rfl⟩
  · rw [Session.tickRetries_eq] at he
    obtain ⟨old, hold, hticked⟩ := List.mem_filterMap.mp he
    exact ⟨old, hold, (InflightEntry.state_ticked hticked).symm⟩

/-- What a tick gives up the session was awaiting. -/
theorem tickSession_dead (h : Hub) (now : Nat) (s : Session) {msg : DeadMsg}
    (hmsg : msg ∈ (h.tickSession now s).2.1) : s.Awaits msg.publish := by
  unfold tickSession at hmsg
  split at hmsg
  · cases hmsg
  · rw [Session.tickRetries_eq] at hmsg
    obtain ⟨old, hold, hdead⟩ := List.mem_filterMap.mp hmsg
    exact ⟨old, hold, InflightEntry.undelivered_of_tickedDead hdead⟩

/-- A tick keeps a message or gives it up; it loses none. -/
theorem tickSession_awaits (h : Hub) (now : Nat) {s : Session} {p : Publish} (hp : s.Awaits p) :
    (h.tickSession now s).1.Awaits p ∨ ∃ attempts, ⟨p, attempts⟩ ∈ (h.tickSession now s).2.1 := by
  unfold tickSession
  split
  · exact Or.inl hp
  · rw [Session.tickRetries_eq]
    obtain ⟨e, he, hstate⟩ := hp
    rcases InflightEntry.ticked_or_dead hstate now h.retry with ⟨e', hticked⟩ | hdead
    · refine Or.inl ⟨e', List.mem_filterMap.mpr ⟨e, he, hticked⟩, ?_⟩
      rw [InflightEntry.state_ticked hticked, hstate]
    · exact Or.inr ⟨e.attempts, List.mem_filterMap.mpr ⟨e, he, hdead⟩⟩

/-- What is taken out was awaited by a session of its client. -/
theorem awaits_of_takeOut {h : Hub} {op : Handover} {entry : String × DeadMsg}
    (hentry : entry ∈ (h.takeOut op).1) :
    ∃ id s, h.sessions.byId.lookup id = some s ∧ s.clientId = entry.1 ∧
      s.Awaits entry.2.publish := by
  cases op with
  | expiry id generation clock =>
      rw [takeOut] at hentry
      rcases h.expire_cases id generation with ⟨heq, -⟩ | ⟨s, hs, -, heq⟩
      · rw [heq] at hentry
        cases hentry
      · rw [heq] at hentry
        obtain ⟨msg, hmsg, rfl⟩ := List.mem_map.mp hentry
        obtain ⟨e, he, hdead⟩ := List.mem_filterMap.mp hmsg
        obtain ⟨p, hp, hsome⟩ := Option.bind_eq_some_iff.mp hdead
        split at hsome
        · cases hsome
        · cases hsome
          exact ⟨id, s, hs, rfl, e, he, hp⟩
  | retries clock =>
      obtain ⟨v, hv, hmem⟩ := List.mem_flatMap.mp hentry
      obtain ⟨s, hs, rfl⟩ := List.mem_map.mp hv
      obtain ⟨msg, hmsg, rfl⟩ := List.mem_map.mp hmem
      obtain ⟨id, hid⟩ := AssocMap.mem_values_iff.mp hs
      exact ⟨id, s, hid, rfl, tickSession_dead h _ s hmsg⟩

/-- A session that is left had its entries before. -/
theorem origin_of_takeOut {h : Hub} {op : Handover} {id : ClientId} {t : Session}
    (ht : (h.takeOut op).2.sessions.byId.lookup id = some t) :
    ∃ s, h.sessions.byId.lookup id = some s ∧ t.clientId = s.clientId ∧
      ∀ e ∈ t.inflight, ∃ old ∈ s.inflight, old.state = e.state := by
  cases op with
  | expiry id' generation clock =>
      have hunchanged : h.sessions.byId.lookup id = some t := by
        rw [takeOut] at ht
        rcases h.expire_cases id' generation with ⟨heq, -⟩ | ⟨s, -, -, heq⟩
        · rw [heq] at ht
          exact ht
        · rw [heq, byId_discard, AssocMap.lookup_erase] at ht
          split at ht
          · cases ht
          next hne => simpa only [setSession, AssocMap.lookup_modify, if_neg hne] using ht
      exact ⟨t, hunchanged, rfl, fun e he => ⟨e, he, rfl⟩⟩
  | retries clock =>
      simp only [takeOut, sessions_writeAll, tickAll, AssocMap.lookup_mapVal] at ht
      obtain ⟨s, hs, rfl⟩ := Option.map_eq_some_iff.mp ht
      exact ⟨s, hs, (Session.frame_of_holder (h.holder_tickSession (clock 0).now s)).clientId,
        fun e he => tickSession_inflight h _ s he⟩

/-- A message that is awaited, and not itself a republished dead letter, is taken
out or still awaited. -/
theorem takeOut_or_awaits {h : Hub} (op : Handover) {id : ClientId} {s : Session} {p : Publish}
    (hs : h.sessions.byId.lookup id = some s) (hp : s.Awaits p)
    (hdlq : isDlqTopic p.topic = false) :
    (∃ attempts, (s.clientId, ⟨p, attempts⟩) ∈ (h.takeOut op).1) ∨
      ∃ t, (h.takeOut op).2.sessions.byId.lookup id = some t ∧ t.clientId = s.clientId ∧
        t.Awaits p := by
  cases op with
  | expiry id' generation clock =>
      rw [takeOut]
      rcases h.expire_cases id' generation with ⟨heq, -⟩ | ⟨s', hs', -, heq⟩
      · rw [heq]
        exact Or.inr ⟨s, hs, rfl, hp⟩
      · rw [heq]
        by_cases hid : id = id'
        · -- the purged session: everything it awaits is drained
          subst hid
          rw [hs] at hs'
          cases hs'
          obtain ⟨e, he, hstate⟩ := hp
          refine Or.inl ⟨e.attempts, List.mem_map.mpr ⟨_, List.mem_filterMap.mpr ⟨e, he, ?_⟩, rfl⟩⟩
          simp [hstate, hdlq]
        · refine Or.inr ⟨s, ?_, rfl, hp⟩
          rw [byId_discard, AssocMap.lookup_erase, if_neg hid, setSession]
          simpa only [AssocMap.lookup_modify, if_neg hid] using hs
  | retries clock =>
      rcases h.tickSession_awaits (clock 0).now hp with hkept | ⟨attempts, hdead⟩
      · refine Or.inr ⟨(h.tickSession (clock 0).now s).1, ?_,
          (Session.frame_of_holder (h.holder_tickSession (clock 0).now s)).clientId, hkept⟩
        simp only [takeOut, sessions_writeAll, tickAll, AssocMap.lookup_mapVal, hs, Option.map_some]
      · refine Or.inl ⟨attempts, List.mem_flatMap.mpr ⟨_, List.mem_map.mpr
          ⟨s, AssocMap.mem_values_iff.mpr ⟨id, hs⟩, rfl⟩, ?_⟩⟩
        exact List.mem_map.mpr ⟨_, hdead, rfl⟩

/-! ## Messages that stay -/

/-- What a client awaits, on the way to its in-flight row: the session of the
client still awaits the message, and every queue can be read back. -/
structure Survives (client : String) (p : Publish) (s : Session) : Prop where
  awaits : s.clientId = client → s.Awaits p
  writable : s.Writable
  fits : ∀ e ∈ s.inflight, e.state.Fits

/-- Deliveries add to queues only, so that the snapshots taken meanwhile still have the
message. -/
theorem records_survives (client : String) (p : Publish) :
    Records (fun topic payload => (Wire.utf8 topic).length < u16Bound ∧ payload.length < u32Bound)
      (Survives client p) (PersistOp.Spares client p) where
  delivered := by
    intro s s' topic payload qos now cfg hsends hdeliver hs
    have hwritable := Session.kept_writable.deliver hdeliver hs.writable
    rw [Session.deliver_eq] at hdeliver
    split at hdeliver
    · cases hdeliver
    · cases hdeliver
      refine ⟨fun hclient => ?_, hwritable, fun e he => ?_⟩
      · obtain ⟨e, he, hstate⟩ := hs.awaits hclient
        exact ⟨e, List.mem_append_left _ he, hstate⟩
      · rcases List.mem_append.mp he with hold | hnew
        · exact hs.fits e hold
        · cases qos with
          | atMostOnce => cases hnew
          | atLeastOnce =>
              rw [List.mem_singleton.mp hnew]
              exact hsends
          | exactlyOnce =>
              rw [List.mem_singleton.mp hnew]
              exact hsends
  snapshot := by
    intro s hs row hrow
    rw [PersistOp.inflightRow]
    split
    next hclient =>
      rw [if_neg s.encodeInflight_ne_nil]
      exact Storage.rowHolds_encodeInflight hs.writable hs.fits (hs.awaits hclient)
    next => exact hrow
  event _ _ _ hrow := hrow
  record _ _ hrow := hrow

/-- The topic under which an awaited message is republished and its payload fit
the length fields of the blob. -/
def DlqFits (h : Hub) : Prop :=
  ∀ id s, h.sessions.byId.lookup id = some s → ∀ p, s.Awaits p →
    (Wire.utf8 (dlqTopic s.clientId p.topic)).length < u16Bound ∧ p.payload.length < u32Bound

theorem DlqFits.state {h : Hub} (hfits : h.DlqFits) {id : ClientId} {s : Session}
    (hs : h.sessions.byId.lookup id = some s) {e : InflightEntry} (he : e ∈ s.inflight) :
    e.state.Fits := by
  have hshorter : ∀ p, e.state.undelivered = some p → p.Fits := by
    intro p hp
    obtain ⟨htopic, hpayload⟩ := hfits id s hs p ⟨e, he, hp⟩
    rw [dlqTopic, Wire.length_utf8_append] at htopic
    exact ⟨by omega, hpayload⟩
  cases hstate : e.state with
  | qos1 p => exact hshorter p (by rw [hstate]; rfl)
  | qos2AwaitRec p => exact hshorter p (by rw [hstate]; rfl)
  | qos2AwaitComp pid => trivial

section

variable {h : Hub} (hcons : h.Consistent) (hwritable : h.Each Session.Writable)
  (hfits : h.DlqFits) {op : Handover} {id : ClientId} {t : Session} {p : Publish}
  (ht : (h.takeOut op).2.sessions.byId.lookup id = some t) (hp : t.Awaits p)

include hcons hwritable hfits ht hp

theorem survives_takeOut : (h.takeOut op).2.Each (Survives t.clientId p) := by
  have hreaches := h.reaches_takeOut op
  intro i t' ht'
  refine ⟨fun hclient => ?_, hwritable.reaches Session.kept_writable hreaches i t' ht',
    fun e he => ?_⟩
  · -- the client has one session
    have hid := (hcons.reaches hreaches).id_unique ht' ht hclient
    subst hid
    rw [ht] at ht'
    cases ht'
    exact hp
  · obtain ⟨s, hs, -, horigin⟩ := origin_of_takeOut ht'
    obtain ⟨old, hold, hstate⟩ := horigin e he
    exact hstate ▸ hfits.state hs hold

/-- Taking messages out queues no write that costs the client a message it still
awaits. -/
theorem spares_takeOut : QueuesAll (PersistOp.Spares t.clientId p) h (h.takeOut op).2 := by
  have hsurvives := survives_takeOut hcons hwritable hfits ht hp
  obtain ⟨s, hs, hclient, -⟩ := origin_of_takeOut ht
  cases op with
  | expiry id' generation clock =>
      rw [takeOut] at ht ⊢
      rcases h.expire_cases id' generation with ⟨hexpire, -⟩ | ⟨s', hs', -, hexpire⟩
      · rw [hexpire]
        exact queuesAll_same rfl rfl
      · rw [hexpire, byId_discard, AssocMap.lookup_erase] at ht
        have hne : id ≠ id' := by
          rintro rfl
          rw [if_pos rfl] at ht
          cases ht
        have hspares : (PersistOp.removeSession s'.clientId).Spares t.clientId p := by
          intro row hrow
          rw [PersistOp.inflightRow, if_neg fun heq => ?_]
          · exact hrow
          · exact hne (hcons.id_unique hs hs' (hclient.symm.trans heq.symm))
        rw [hexpire]
        refine QueuesAll.discard_set hs' ?_ hspares
        rfl
  | retries clock =>
      have hsame : QueuesAll (PersistOp.Spares t.clientId p) h
          (h.tickAll (clock 0).now).2.2 := queuesAll_same rfl rfl
      refine hsame.writeAll fun snapshot hsnapshot => ?_
      obtain ⟨v, hv, htaken⟩ := List.mem_filterMap.mp hsnapshot
      obtain ⟨s', hs', rfl⟩ := List.mem_map.mp hv
      obtain ⟨i, hi⟩ := AssocMap.mem_values_iff.mp hs'
      have hticked : (h.takeOut (.retries clock)).2.sessions.byId.lookup i =
          some (h.tickSession (clock 0).now s').1 := by
        simp only [takeOut, sessions_writeAll, tickAll, AssocMap.lookup_mapVal, hi, Option.map_some]
      dsimp only at htaken
      split at htaken
      · unfold snapshotInflight at htaken
        split at htaken
        · cases htaken
          exact (records_survives t.clientId p).snapshot _ (hsurvives i _ hticked)
        · cases htaken
      · cases htaken

end

/-! ## Crashes -/

/-- Startup restores only sessions whose queue can be written, whatever the rows
hold. -/
theorem writable_new (st : Storage) (retry : RetryConfig) (eventLogMax now : Nat) :
    (new (some st) retry eventLogMax now).Each Session.Writable := by
  intro id s hs
  rw [(rebuilt_new st retry eventLogMax now).byId, Option.map_eq_some_iff] at hs
  obtain ⟨ps, -, rfl⟩ := hs
  unfold restoreSession
  split
  next nextId queue hdecode =>
    obtain ⟨blob, -, hblob⟩ := Option.bind_eq_some_iff.mp hdecode
    obtain ⟨hlt, hqueued⟩ := queued_decodeInflight hblob
    exact ⟨hlt, hqueued⟩
  next => exact Session.kept_writable.new _ _ _ _

end Hub

namespace Hub

/-- The crash costs no message of the session: what the session awaits and its
row would hold without the operation is on disk with it. -/
def SafeCrash (h h' : Hub) (n : Nat) (id : ClientId) : Prop :=
  ∀ d ∈ h.disk, ∀ d' ∈ h'.disk, ∀ s ∈ h.sessions.byId.lookup id, ∀ p, s.Awaits p →
    isDlqTopic p.topic = false → Storage.RowHolds p (d.crashed n).inflight[s.clientId]? →
      (d'.crashed n).Keeps s.clientId p

/-- The crash does not come between the row of the session and the dead letters
of the operation: none of its writes on the row has been applied, or all its dead
letters have. -/
def CleanCut (h h' : Hub) (n : Nat) (id : ClientId) : Prop :=
  ∀ d ∈ h.disk, ∀ d' ∈ h'.disk, ∀ s ∈ h.sessions.byId.lookup id,
    (∀ op ∈ (d'.queue.take n).drop d.queue.length, ∀ row,
      op.inflightRow s.clientId row = row) ∨
    ∀ op ∈ d'.queue.drop n, op.deadLetter? = none

/-- A crash among the writes of an operation, next to the crash without it. -/
theorem crashed_of_queues {h h' : Hub} {ops : List PersistOp} (hqueues : Queues h ops h')
    {d d' : Disk} (hd : h.disk = some d) (hd' : h'.disk = some d') (n : Nat) :
    d'.crashed n = ((d'.queue.take n).drop d.queue.length).foldl Storage.applyPersistOp
        (d.crashed n) ∧
      d'.storage = d.storage ∧ d'.queue = d.queue ++ ops := by
  have heq := hqueues.disk
  rw [hd, hd', Option.map_some] at heq
  cases heq
  refine ⟨?_, rfl, rfl⟩
  rw [List.drop_take, List.drop_left]
  simp [Disk.crashed, List.take_append, List.foldl_append]

theorem queues_takeOut (h : Hub) (op : Handover) : ∃ ops, Queues h ops (h.takeOut op).2 := by
  have hall : QueuesAll (fun _ => True) h (h.takeOut op).2 := by
    cases op with
    | expiry id generation clock => exact queuesAll_expire (fun _ _ => trivial) generation
    | retries clock =>
        have hticked : QueuesAll (fun _ => True) h (h.tickAll (clock 0).now).2.2 :=
          queuesAll_same rfl rfl
        exact hticked.writeAll fun _ _ => trivial
  obtain ⟨ops, hops, -⟩ := hall
  exact ⟨ops, hops⟩

/-- Every message that an operation takes out is recorded by one of the writes it
queues. -/
theorem recorded_handOver {Sends : String → Bytes → Prop} {P : Session → Prop}
    {Q : PersistOp → Prop} (hrecords : Records Sends P Q) {h h' : Hub} {op : Handover}
    (hop : h.handOver op = some h') (heach : (h.takeOut op).2.Each P)
    (hsends : ∀ entry ∈ (h.takeOut op).1,
      Sends (dlqTopic entry.1 entry.2.publish.topic) entry.2.publish.payload) :
    ∃ reason ops, Queues (h.takeOut op).2 ops h' ∧ Recorded Q reason (h.takeOut op).1 ops := by
  obtain ⟨reason, clock, heq⟩ := h.handOver_eq op
  rw [heq] at hop
  obtain ⟨ops, hops, hrecorded⟩ := hrecords.deadLetterAll heach hsends hop
  exact ⟨reason, ops, hops, hrecorded⟩

/-- The writes an operation queues, without a condition on the sessions. -/
theorem queues_handOver {h h' : Hub} {op : Handover} (hop : h.handOver op = some h') :
    ∃ reason ops taken, Queues h (taken ++ ops) h' ∧
      Recorded (fun _ => True) reason (h.takeOut op).1 ops := by
  have htrivial : Records (fun _ _ => True) (fun _ => True) (fun _ => True) := by
    constructor <;> intros <;> trivial
  obtain ⟨taken, htaken⟩ := h.queues_takeOut op
  obtain ⟨reason, ops, hops, hrecorded⟩ :=
    recorded_handOver htrivial hop (fun _ _ _ => trivial) (fun _ _ => trivial)
  exact ⟨reason, ops, taken, htaken.trans hops, hrecorded⟩

section

variable {h h' : Hub} {op : Handover} (hop : h.handOver op = some h') {d d' : Disk}
  (hd : h.disk = some d) (hd' : h'.disk = some d') {n : Nat} {client : String} {p : Publish}

include hop hd hd'

/-- A message that was taken out is recorded, and the record is on disk if no dead
letter of the operation is missing. -/
theorem deadLettered_of_takeOut {attempts : Nat}
    (hroom : nextOffset d.storage.deadLetters.toList + n ≤ u64Bound)
    (hdead : (client, ⟨p, attempts⟩) ∈ (h.takeOut op).1) (hdlq : isDlqTopic p.topic = false)
    (hall : ∀ op ∈ d'.queue.drop n, op.deadLetter? = none) :
    (d'.crashed n).DeadLettered client p := by
  obtain ⟨reason, ops, taken, hqueues, hrecorded⟩ := queues_handOver hop
  obtain ⟨-, hstorage, hqueue⟩ := crashed_of_queues hqueues hd hd' n
  obtain ⟨ts, hts⟩ := hrecorded.each _ hdead hdlq
  have hmem : PersistOp.recordOf reason ts (client, ⟨p, attempts⟩) ∈ d'.queue.take n ++ d'.queue.drop n := by
    rw [List.take_append_drop, hqueue]
    exact List.mem_append_right _ (List.mem_append_right _ hts)
  rcases List.mem_append.mp hmem with htaken | hmissing
  · have hroom' : nextOffset d'.storage.deadLetters.toList + (d'.queue.take n).length ≤
        u64Bound := by
      rw [hstorage]
      exact (Nat.add_le_add_left (List.length_take_le n d'.queue) _).trans hroom
    have hrecord := Storage.deadLettered_foldl hroom' htaken
    exact hrecord
  · cases hall _ hmissing

/-- A message that the session of the client still awaits stays in its row,
wherever the crash falls. -/
theorem rowHolds_of_awaits (hcons : h.Consistent) (hwritable : h.Each Session.Writable)
    (hfits : h.DlqFits) {id : ClientId} {t : Session}
    (ht : (h.takeOut op).2.sessions.byId.lookup id = some t) (hp : t.Awaits p)
    (hrow : Storage.RowHolds p (d.crashed n).inflight[t.clientId]?) :
    Storage.RowHolds p (d'.crashed n).inflight[t.clientId]? := by
  obtain ⟨ops₁, hops₁, hspares₁⟩ := spares_takeOut hcons hwritable hfits ht hp
  have hsends : ∀ entry ∈ (h.takeOut op).1,
      (Wire.utf8 (dlqTopic entry.1 entry.2.publish.topic)).length < u16Bound ∧
        entry.2.publish.payload.length < u32Bound := by
    intro entry hentry
    obtain ⟨i, s, hs, hclient, hawaits⟩ := awaits_of_takeOut hentry
    exact hclient ▸ hfits i s hs _ hawaits
  obtain ⟨reason, ops₂, hops₂, hrecorded⟩ := recorded_handOver (records_survives t.clientId p) hop
    (survives_takeOut hcons hwritable hfits ht hp) hsends
  obtain ⟨hcrashed, -, hqueue⟩ := crashed_of_queues (hops₁.trans hops₂) hd hd' n
  rw [hcrashed]
  refine Storage.rowHolds_foldl (fun op hmem => ?_) hrow
  rw [hqueue, List.drop_take, List.drop_left] at hmem
  rcases List.mem_append.mp (List.mem_of_mem_take hmem) with hfirst | hsecond
  · exact hspares₁ op hfirst
  · exact hrecorded.all op hsecond

end

/-- In every state that a broker started on any store reaches, an expiry purge and
a retry round lose no awaited message to a crash that does not come between the
row of the message and the dead letters of the operation. -/
theorem safeCrash_of_cleanCut (st : Storage) (retry : RetryConfig) (eventLogMax now : Nat)
    {h h' : Hub} (hreaches : (new (some st) retry eventLogMax now).Reaches h) (hfits : h.DlqFits)
    {op : Handover} (hop : h.handOver op = some h') {n : Nat}
    (hroom : ∀ d ∈ h.disk, nextOffset d.storage.deadLetters.toList + n ≤ u64Bound) {id : ClientId}
    (hcut : CleanCut h h' n id) : SafeCrash h h' n id := by
  intro d hd d' hd' s hs p hp hdlq hrow
  rcases takeOut_or_awaits op hs hp hdlq with ⟨attempts, hdead⟩ | ⟨t, ht, hclient, hawaits⟩
  · rcases hcut d hd d' hd' s hs with hbefore | hafter
    · -- the row is as it would be without the operation
      obtain ⟨reason, ops, taken, hqueues, -⟩ := queues_handOver hop
      rw [Storage.Keeps, (crashed_of_queues hqueues hd hd' n).1]
      refine Or.inl (Storage.rowHolds_foldl (fun op hmem row hrow => ?_) hrow)
      rwa [hbefore op hmem row]
    · exact Or.inr (deadLettered_of_takeOut hop hd hd' (hroom d hd) hdead hdlq hafter)
  · left
    rw [← hclient] at hrow ⊢
    exact rowHolds_of_awaits hop hd hd'
      ((consistent_new (some st) retry eventLogMax now).reaches hreaches)
      ((writable_new st retry eventLogMax now).reaches Session.kept_writable hreaches) hfits ht
      hawaits hrow

def stored : Session :=
  { Session.new "c" none 60 0 with
    nextId := 2
    inflight := [⟨.qos1 (makePublish "t" [7] .atLeastOnce (some 1) false false), 1, 0⟩] }

def restored : Hub :=
  new (some ((Storage.empty.putSession "c" 60).putInflight "c" stored.encodeInflight)) ⟨5, 5, 60⟩ 0
    0

def expired : Option Hub := restored.handOver (.expiry 1 0 fun _ => ⟨0, 0⟩)

/-- The crash comes when the row of the session is removed and its message is
recorded. -/
theorem safeCrash_of_cleanCut_expired : ∃ h', expired = some h' ∧ SafeCrash restored h' 2 1 := by
  have hsome : expired.isSome := by decide +kernel
  have hfits : ∀ s ∈ restored.sessions.byId.values, ∀ e ∈ s.inflight, ∀ p ∈ e.state.undelivered,
      (Wire.utf8 (dlqTopic s.clientId p.topic)).length < u16Bound ∧
        p.payload.length < u32Bound := by
    decide +kernel
  have hroom : ∀ d ∈ restored.disk, nextOffset d.storage.deadLetters.toList + 2 ≤ u64Bound := by
    decide +kernel
  have hqueue : ∀ h' ∈ expired, ∀ d' ∈ h'.disk, ∀ op ∈ d'.queue.drop 2, op.deadLetter? = none := by
    decide +kernel
  obtain ⟨h', hop⟩ := Option.isSome_iff_exists.mp hsome
  refine ⟨h', hop, safeCrash_of_cleanCut _ _ _ _ (.refl _) ?_ hop hroom ?_⟩
  · rintro id s hs p ⟨e, he, hstate⟩
    exact hfits s (AssocMap.mem_values_iff.mpr ⟨id, hs⟩) e he p hstate
  · exact fun d _ d' hd' s _ => Or.inr (hqueue h' hop d' hd')

/-- The crash comes when the row is removed and the message is not recorded yet:
the message is gone. -/
theorem safeCrash_lost_by_expiry : ∃ h', expired = some h' ∧ ¬ SafeCrash restored h' 1 1 := by
  have hsome : expired.isSome := by decide +kernel
  have hsession : restored.sessions.byId.lookup 1 =
      some { stored with inflight := stored.inflight.map (InflightEntry.rearm 0 ⟨5, 5, 60⟩) } := by
    decide +kernel
  have hwritten : ∀ d ∈ restored.disk,
      (d.crashed 1).inflight["c"]? = some stored.encodeInflight := by
    decide +kernel
  have hdisk : ∀ h' ∈ expired, h'.disk.isSome := by decide +kernel
  have hlost : ∀ h' ∈ expired, ∀ d' ∈ h'.disk,
      (d'.crashed 1).inflight["c"]? = none ∧ (d'.crashed 1).deadLetters.toList = [] := by
    decide +kernel
  have hwritable : stored.Writable := by
    refine ⟨by decide, fun e he => ?_⟩
    rw [List.mem_singleton.mp he]
    exact ⟨⟨rfl, rfl, rfl, 1, rfl, by decide, by decide⟩, by decide⟩
  have hfits : ∀ e ∈ stored.inflight, e.state.Fits := by
    intro e he
    rw [List.mem_singleton.mp he]
    exact ⟨by decide, by decide⟩
  have hrow := Storage.rowHolds_encodeInflight hwritable hfits ⟨_, List.mem_singleton_self _, rfl⟩
  obtain ⟨h', hop⟩ := Option.isSome_iff_exists.mp hsome
  obtain ⟨d', hd'⟩ := Option.isSome_iff_exists.mp (hdisk h' hop)
  obtain ⟨hnorow, hnodead⟩ := hlost h' hop d' hd'
  refine ⟨h', hop, fun hsafe => ?_⟩
  rcases hsafe _ rfl d' hd' _ hsession _ ⟨_, List.mem_singleton_self _, rfl⟩ rfl
    (hwritten _ rfl ▸ hrow) with ⟨blob, hblob, -⟩ | ⟨key, ts, reason, attempts, hkey⟩
  · cases hnorow.symm.trans hblob
  · have hmem := Std.TreeMap.mem_toList_iff_getElem?_eq_some.mpr hkey
    rw [hnodead] at hmem
    cases hmem

end Hub

end Relay
