import Relay.Foundation.Machine
import Relay.Server.Snapshots

/-! # Queueing snapshots after the lock

An operation that changes in-flight queues takes its snapshots under the lock and
queues them once the lock is released, so operations of other tasks fit in
between. Snapshots of one client that are queued in the order they were taken
leave the row of its session; the other order leaves an older one.
-/

namespace Relay

/-- Operations that change in-flight queues. The dead messages of a retry round
are published afterwards, each as an operation of its own. -/
inductive InflightOp where
  | publish (topic : String) (payload : Bytes) (msgQos : QoS) (retain : Bool) (clock : Clock)
  | deliverRetained (id : ClientId) (filter : TopicFilter) (granted : QoS) (now : Nat)
  | acknowledge (id : ClientId) (ack : Ack)
  | runRetries (now : Nat)

namespace Hub

/-- The part of an operation up to the release of the sessions lock, with the
snapshots still to be queued. -/
def locked (h : Hub) : InflightOp → Option (List (String × Bytes) × Hub)
  | .publish topic payload msgQos retain clock =>
      let announced := h.announce topic payload msgQos retain clock.ts
      ((announced.routeTopic topic).2.deliverAll (announced.routeTopic topic).1 topic payload msgQos
        clock.now).map fun f => (f.toPersist, f.hub)
  | .deliverRetained id filter granted now =>
      let messages := h.retained.matching filter
      if messages = [] then some ([], h)
      else (h.replayRetained id messages granted now).map fun r => (r.1.toList, r.2)
  | .acknowledge id ack =>
      some ((h.acknowledge id ack.apply).1.toList, (h.acknowledge id ack.apply).2)
  | .runRetries now => some (h.tickAll now).2

/-- A publish is its locked part followed by its writes. -/
theorem publish_eq_locked (h : Hub) (topic : String) (payload : Bytes) (msgQos : QoS)
    (retain : Bool) (clock : Clock) :
    (h.publish topic payload msgQos retain clock).map Prod.snd =
      (h.locked (.publish topic payload msgQos retain clock)).map fun r => r.2.writeAll r.1 := by
  simp [publish, fanOut_eq, locked, Function.comp_def]

/-- An operation is its locked part followed by its snapshots. -/
theorem deliverRetained_eq_locked (h : Hub) (id : ClientId) (filter : TopicFilter) (granted : QoS)
    (now : Nat) :
    h.deliverRetained id filter granted now =
      (h.locked (.deliverRetained id filter granted now)).map fun r => r.2.writeAll r.1 := by
  simp only [deliverRetained, locked]
  split
  · rfl
  · rw [Option.map_map]
    rfl

theorem onAck_eq_locked (h : Hub) (id : ClientId) (ack : Ack) :
    some (h.onAck id ack.apply) =
      (h.locked (.acknowledge id ack)).map fun r => r.2.writeAll r.1 := rfl

theorem runRetries_eq_locked (h : Hub) (clock : Nat → Clock) :
    h.runRetries clock = (h.locked (.runRetries (clock 0).now)).bind fun r =>
      (r.2.writeAll r.1).deadLetterAll "max_delivery_attempts_exceeded" (h.tickAll (clock 0).now).1
        fun k => clock (k + 1) := rfl

/-- The locked part is a run of sections. -/
theorem reaches_locked {h h' : Hub} {op : InflightOp} {snapshots : List (String × Bytes)}
    (hlocked : h.locked op = some (snapshots, h')) : h.Reaches h' := by
  cases op with
  | publish topic payload msgQos retain clock =>
      obtain ⟨f, hf, heq⟩ := Option.map_eq_some_iff.mp hlocked
      cases heq
      refine (reaches_announce h topic payload msgQos retain clock.ts).trans
        ((Machine.Reaches.single (.route topic) rfl).trans (.single
          (.deliver ((h.announce topic payload msgQos retain clock.ts).routeTopic topic).1 topic
            payload msgQos clock.now) ?_))
      rw [act, hf, Option.map_some]
  | deliverRetained id filter granted now =>
      simp only [locked] at hlocked
      split at hlocked
      · cases hlocked
        exact .refl h
      · obtain ⟨⟨snapshot, h''⟩, hreplay, heq⟩ := Option.map_eq_some_iff.mp hlocked
        cases heq
        exact .single (.replayRetained id _ granted now) (by rw [act, hreplay, Option.map_some])
  | acknowledge id ack =>
      cases hlocked
      exact .single (.acknowledge id ack) rfl
  | runRetries now =>
      cases hlocked
      exact .single (.tick now) rfl

/-! ## Rows while an operation runs -/

theorem isSome_disk_enqueue (h : Hub) (op : PersistOp) :
    (h.enqueue op).disk.isSome = h.disk.isSome := by
  simp [enqueue]

/-- The event log is another table. -/
theorem inflightRow_journal {h : Hub} (hdisk : h.disk.isSome) (topic : String) (payload : Bytes)
    (qos : QoS) (ts : Nat) (client : String) :
    (h.journal topic payload qos ts).inflightRow client = h.inflightRow client ∧
      (h.journal topic payload qos ts).disk.isSome := by
  unfold journal
  split
  · exact ⟨inflightRow_enqueue hdisk _ client, by rwa [isSome_disk_enqueue]⟩
  · exact ⟨rfl, hdisk⟩

/-- What a publish queues before it routes leaves in-flight rows alone. -/
theorem inflightRow_announce {h : Hub} (hdisk : h.disk.isSome) (topic : String) (payload : Bytes)
    (qos : QoS) (retain : Bool) (ts : Nat) (client : String) :
    (h.announce topic payload qos retain ts).inflightRow client = h.inflightRow client ∧
      (h.announce topic payload qos retain ts).disk.isSome := by
  unfold announce
  split
  · have hkept : (h.retain topic payload qos).disk.isSome := by
      rwa [Hub.retain, isSome_disk_enqueue]
    obtain ⟨hrow, hsome⟩ := inflightRow_journal hkept topic payload qos ts client
    refine ⟨hrow.trans ?_, hsome⟩
    have hdisk' : ({ h with retained := h.retained.apply ⟨topic, payload, qos, true⟩ } :
        Hub).disk.isSome := hdisk
    exact inflightRow_enqueue hdisk' _ client
  · exact inflightRow_journal hdisk topic payload qos ts client

theorem inflightRow_congr {h h' : Hub} (hdisk : h'.disk = h.disk) (client : String) :
    h'.inflightRow client = h.inflightRow client := by
  rw [inflightRow, hdisk, inflightRow]

/-- The locked part takes its snapshots and leaves in-flight rows alone. -/
theorem snapshots_locked {h h' : Hub} {op : InflightOp} {snapshots : List (String × Bytes)}
    (hdisk : h.disk.isSome) (hlocked : h.locked op = some (snapshots, h')) :
    Snapshots h snapshots h' ∧ (∀ client, h'.inflightRow client = h.inflightRow client) ∧
      h'.disk.isSome := by
  cases op with
  | publish topic payload msgQos retain clock =>
      obtain ⟨f, hf, heq⟩ := Option.map_eq_some_iff.mp hlocked
      cases heq
      have hannounce := inflightRow_announce hdisk topic payload msgQos retain clock.ts
      have hrouted : ((h.announce topic payload msgQos retain clock.ts).routeTopic
        topic).2.disk.isSome := (hannounce "").2
      have hsnap := snapshots_deliverAll hrouted hf
      have hsame := (disk_deliverAll hf).1
      refine ⟨⟨?_, hsnap.taken⟩, fun client => ?_, hsame ▸ hrouted⟩
      · intro id s' hs'
        obtain ⟨s, hs, hkept⟩ := hsnap.kept id s' hs'
        simp only [routeTopic, sessions_announce] at hs
        exact ⟨s, hs, hkept⟩
      · exact (inflightRow_congr hsame client).trans (hannounce client).1
  | deliverRetained id filter granted now =>
      simp only [locked] at hlocked
      split at hlocked
      · cases hlocked
        exact ⟨Snapshots.refl h, fun _ => rfl, hdisk⟩
      · obtain ⟨⟨snapshot, h''⟩, hreplay, heq⟩ := Option.map_eq_some_iff.mp hlocked
        cases heq
        obtain ⟨hsnap, hsame⟩ := snapshots_replayRetained hdisk hreplay
        exact ⟨hsnap, inflightRow_congr hsame, hsame ▸ hdisk⟩
  | acknowledge id ack =>
      cases hlocked
      obtain ⟨hsnap, hsame⟩ := snapshots_acknowledge hdisk id ack
      exact ⟨hsnap, inflightRow_congr hsame, hsame ▸ hdisk⟩
  | runRetries now =>
      cases hlocked
      exact ⟨snapshots_tickAll hdisk now, fun _ => rfl, hdisk⟩

/-- The row of every durable session is the encoding of its counter and queue. -/
def RowsExact (h : Hub) : Prop :=
  ∀ d ∈ h.disk, ∀ s ∈ h.sessions.byId.values, 0 < s.expirySecs →
    d.storage.inflight[s.clientId]? = some s.encodeInflight

instance (h : Hub) : Decidable h.RowsExact :=
  inferInstanceAs (Decidable (∀ d ∈ h.disk, ∀ s ∈ h.sessions.byId.values, 0 < s.expirySecs →
    d.storage.inflight[s.clientId]? = some s.encodeInflight))

end Hub

/-! ## Interleaved operations -/

/-- A snapshot that its task has still to queue. -/
structure Pending where
  task : Nat
  snapshot : String × Bytes
deriving DecidableEq

/-- The hub with the snapshots taken and not yet queued, oldest first. -/
structure Writes where
  hub : Hub
  pending : List Pending

inductive WriteStep where
  | locked (task : Nat) (op : InflightOp)
  | enqueue (task : Nat)
  | work

namespace Writes

def step (st : Writes) : WriteStep → Option Writes
  | .locked task op =>
      -- a task performs one operation at a time
      if st.pending.any fun p => p.task = task then none
      else (st.hub.locked op).map fun r => ⟨r.2, st.pending ++ r.1.map (Pending.mk task)⟩
  | .enqueue task =>
      (st.pending.find? fun p => p.task = task).map fun p =>
        ⟨st.hub.writeInflight p.snapshot, st.pending.eraseP fun p => p.task = task⟩
  | .work => st.hub.work.map fun h => { st with hub := h }

def AtRest (st : Writes) : Prop := st.pending = [] ∧ ∀ d ∈ st.hub.disk, d.queue = []

instance (st : Writes) : Decidable st.AtRest :=
  inferInstanceAs (Decidable (st.pending = [] ∧ ∀ d ∈ st.hub.disk, d.queue = []))

/-- A snapshot is queued only when no older one of the same client is pending. -/
def InOrder (st : Writes) : WriteStep → Prop
  | .enqueue task => ∀ p ∈ st.pending.find? (fun p => p.task = task),
      ∀ q ∈ st.pending.takeWhile (fun p => p.task ≠ task), q.snapshot.1 ≠ p.snapshot.1
  | _ => True

instance (st : Writes) : (a : WriteStep) → Decidable (st.InOrder a)
  | .enqueue task => inferInstanceAs (Decidable
      (∀ p ∈ st.pending.find? (fun p => p.task = task),
        ∀ q ∈ st.pending.takeWhile (fun p => p.task ≠ task), q.snapshot.1 ≠ p.snapshot.1))
  | .locked _ _ => isTrue trivial
  | .work => isTrue trivial

/-- The row a client ends up with if the pending snapshots are queued in order. -/
def eventualRow (st : Writes) (client : String) : Option Bytes :=
  (st.hub.writeAll (st.pending.map Pending.snapshot)).inflightRow client

/-- The last pending snapshot of a client decides its row. -/
theorem eventualRow_eq {st : Writes} (hdisk : st.hub.disk.isSome) (client : String) :
    st.eventualRow client =
      match latest client (st.pending.map Pending.snapshot) with
      | some blob => if blob = [] then none else some blob
      | none => st.hub.inflightRow client :=
  Hub.inflightRow_writeAll hdisk client _

structure Tracked (st : Writes) : Prop where
  consistent : st.hub.Consistent
  disk : st.hub.disk.isSome
  rows : ∀ id s, st.hub.sessions.byId.lookup id = some s → 0 < s.expirySecs →
    st.eventualRow s.clientId = some s.encodeInflight

/-- The locked step. A session that was snapshotted ends up with the snapshot,
any other durable one is as it was. -/
theorem Tracked.locked {st : Writes} (htracked : st.Tracked) {op : InflightOp} {h' : Hub}
    {snapshots : List (String × Bytes)} (hlocked : st.hub.locked op = some (snapshots, h'))
    (task : Nat) : Tracked ⟨h', st.pending ++ snapshots.map (Pending.mk task)⟩ := by
  obtain ⟨hsnap, hrow, hdisk⟩ := Hub.snapshots_locked htracked.disk hlocked
  have hcons := htracked.consistent.reaches (Hub.reaches_locked hlocked)
  refine ⟨hcons, hdisk, fun id s' hs' hpos => ?_⟩
  obtain ⟨s, hs, hclient, hexpiry, hsame⟩ := hsnap.kept id s' hs'
  have hmap : (snapshots.map (Pending.mk task)).map Pending.snapshot = snapshots := by
    simp [Function.comp_def]
  rw [eventualRow_eq hdisk, List.map_append, hmap, latest_append]
  cases hlatest : latest s'.clientId snapshots with
  | some blob =>
      obtain ⟨i, t, ht, htclient, -, rfl⟩ := hsnap.taken s'.clientId blob hlatest
      have hid := hcons.id_unique ht hs' htclient
      subst hid
      rw [hs'] at ht
      cases ht
      simp [Session.encodeInflight_ne_nil]
  | none =>
      obtain ⟨hid, hqueue⟩ := hsame (hclient ▸ hlatest) (hexpiry ▸ hpos)
      have hold := htracked.rows id s hs (hexpiry ▸ hpos)
      rw [eventualRow_eq htracked.disk, ← hclient, ← hrow] at hold
      rw [Option.none_or, Session.encodeInflight, hid, hqueue]
      exact hold

/-- Queueing the oldest pending snapshot of its client changes no row eventually. -/
theorem eventualRow_enqueue {h : Hub} (hdisk : h.disk.isSome) {before after : List Pending}
    {p : Pending} (holdest : ∀ q ∈ before, q.snapshot.1 ≠ p.snapshot.1) (client : String) :
    eventualRow ⟨h.writeInflight p.snapshot, before ++ after⟩ client =
      eventualRow ⟨h, before ++ p :: after⟩ client := by
  have hdisk' : (h.writeInflight p.snapshot).disk.isSome := by
    rwa [Hub.writeInflight, Hub.isSome_disk_enqueue]
  rw [eventualRow_eq hdisk', eventualRow_eq hdisk, List.map_append, List.map_append, List.map_cons,
    ← List.singleton_append, latest_append, latest_append, latest_append, latest_singleton,
    Hub.writeInflight, Hub.inflightRow_enqueue hdisk, PersistOp.inflightRow]
  cases latest client (after.map Pending.snapshot) with
  | some blob => rfl
  | none =>
      by_cases hclient : p.snapshot.1 = client
      · have hbefore : latest client (before.map Pending.snapshot) = none := by
          cases hlatest : latest client (before.map Pending.snapshot) with
          | none => rfl
          | some blob =>
              obtain ⟨q, hq, hsnapshot⟩ := List.mem_map.mp (mem_of_latest hlatest)
              exact absurd (hsnapshot ▸ hclient.symm) (holdest q hq)
        simp [hclient, hbefore]
      · simp [hclient]

/-- Queued in order, a snapshot leaves the eventual row as it was. -/
theorem Tracked.enqueue {st : Writes} (htracked : st.Tracked) {task : Nat} {p : Pending}
    (hp : st.pending.find? (fun p => p.task = task) = some p)
    (horder : st.InOrder (.enqueue task)) :
    Tracked ⟨st.hub.writeInflight p.snapshot, st.pending.eraseP fun p => p.task = task⟩ := by
  obtain ⟨before, after, hsplit, hbefore, herase⟩ := AssocList.exists_split_of_find? hp
  have holdest : ∀ q ∈ before, q.snapshot.1 ≠ p.snapshot.1 :=
    fun q hq => horder p hp q (hbefore ▸ hq)
  refine ⟨htracked.consistent.effect (Hub.quiet_enqueue st.hub _).effect, ?_, ?_⟩
  · rw [Hub.writeInflight, Hub.isSome_disk_enqueue]
    exact htracked.disk
  · intro id s hs hpos
    rw [herase, eventualRow_enqueue htracked.disk holdest, ← hsplit]
    exact htracked.rows id s hs hpos

theorem Tracked.work {st : Writes} (htracked : st.Tracked) {h' : Hub}
    (hwork : st.hub.work = some h') : Tracked { st with hub := h' } := by
  have hcons := htracked.consistent.effect (Hub.still_work hwork).quiet.effect
  have hrow := Hub.inflightRow_work hwork
  obtain ⟨d, d', hd, hd', rfl⟩ := Hub.exists_of_work hwork
  refine ⟨hcons, rfl, fun id s hs hpos => ?_⟩
  have hold := htracked.rows id s hs hpos
  rw [eventualRow_eq htracked.disk, ← hrow] at hold
  rw [eventualRow_eq rfl]
  exact hold

/-- Each of the steps keeps the eventual rows exact. -/
theorem Tracked.step {st st' : Writes} {a : WriteStep} (htracked : st.Tracked)
    (horder : st.InOrder a) (hstep : st.step a = some st') : st'.Tracked := by
  cases a with
  | locked task op =>
      simp only [Writes.step] at hstep
      split at hstep
      · cases hstep
      · obtain ⟨⟨snapshots, h'⟩, hlocked, rfl⟩ := Option.map_eq_some_iff.mp hstep
        exact htracked.locked hlocked task
  | enqueue task =>
      obtain ⟨p, hp, rfl⟩ := Option.map_eq_some_iff.mp hstep
      exact htracked.enqueue hp horder
  | work =>
      obtain ⟨h', hwork, rfl⟩ := Option.map_eq_some_iff.mp hstep
      exact htracked.work hwork

/-- At rest the eventual row is the row in the store. -/
theorem eventualRow_of_atRest {st : Writes} (hrest : st.AtRest) {d : Disk}
    (hdisk : st.hub.disk = some d) (client : String) :
    st.eventualRow client = d.storage.inflight[client]? := by
  have hqueue := hrest.2 d hdisk
  rw [eventualRow_eq (by simp [hdisk]), hrest.1]
  simp [latest, Hub.inflightRow, hdisk, Disk.settled, hqueue]

/-- From a consistent hub at rest with exact rows, a run that queues the snapshots
of every client in the order they were taken has exact rows whenever it is at
rest, however the operations interleave. -/
theorem rowsExact_of_inOrder {h : Hub} (hcons : h.Consistent) (hdisk : h.disk.isSome)
    (hrest : AtRest ⟨h, []⟩) (hrows : h.RowsExact) {steps : List WriteStep}
    (horder : Machine.Meets step InOrder ⟨h, []⟩ steps) :
    Machine.Always step (fun st => st.AtRest → st.hub.RowsExact) ⟨h, []⟩ steps := by
  refine Machine.always_of_meets Tracked InOrder
    (fun st a st' htracked hok hstep => htracked.step hok hstep) ?_ ?_ horder
  · intro st htracked hrest d hd s hs hpos
    obtain ⟨id, hlookup⟩ := AssocMap.mem_values_iff.mp hs
    rw [← eventualRow_of_atRest hrest hd]
    exact htracked.rows id s hlookup hpos
  · obtain ⟨d, hd⟩ := Option.isSome_iff_exists.mp hdisk
    refine ⟨hcons, hdisk, fun id s hs hpos => ?_⟩
    rw [eventualRow_of_atRest hrest hd]
    exact hrows d hd s (AssocMap.mem_values_iff.mpr ⟨id, hs⟩) hpos

def reloaded : Hub :=
  let st := ((Storage.empty.putSession "c" 60).putSubscription "c" "t" .atLeastOnce).putInflight "c"
    [0, 1]
  Hub.new (some st) ⟨5, 5, 60⟩ 0 0

/-- Two publishes that overlap and queue their snapshots in order. -/
theorem rowsExact_of_inOrder_overlap :
    let publish := InflightOp.publish "t" [7] .atLeastOnce false ⟨0, 0⟩
    let steps := [.locked 0 publish, .locked 1 publish, .enqueue 0, .enqueue 1, .work, .work]
    Machine.Always step (fun st => st.AtRest → st.hub.RowsExact) ⟨reloaded, []⟩ steps ∧
      (Machine.run step ⟨reloaded, []⟩ steps).isSome := by
  have hcons : reloaded.Consistent := Hub.consistent_new _ _ _ _
  exact ⟨rowsExact_of_inOrder hcons (by decide) (by decide) (by decide) (by decide), by decide⟩

/-- The same publishes, the second of which queues its snapshot first: the row
keeps only the first message. -/
theorem rowsExact_lost_by_reordering :
    let publish := InflightOp.publish "t" [7] .atLeastOnce false ⟨0, 0⟩
    AtRest ⟨reloaded, []⟩ ∧ reloaded.RowsExact ∧
      ∃ st, Machine.run step ⟨reloaded, []⟩ [.locked 0 publish, .locked 1 publish, .enqueue 1,
          .enqueue 0, .work, .work] = some st ∧ st.AtRest ∧ ¬ st.hub.RowsExact := by
  refine ⟨by decide, by decide, _, rfl, ?_, ?_⟩ <;> decide

end Writes

end Relay
