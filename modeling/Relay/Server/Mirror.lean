import Relay.Server.InflightWrites
import Relay.Server.Records

/-! # The store mirrors the durable sessions

Between operations, once the queue is drained, the record of every client is that
of its durable session, and clients without one have no record. The operations
keep this one client at a time: they touch the record and the session of the same
client. A resume that makes a session durable is the exception, because what the
session gathered before was never written.
-/

namespace Relay

/-! ## Sessions and records -/

/-- The record of a durable session holding these subscriptions. A session whose
queue was never written has no in-flight row. -/
structure Session.RecordedAs (held : Option String × String → Option QoS) (s : Session)
    (r : ClientRecord) : Prop where
  expiry : r.expiry = some s.expirySecs
  subs : ∀ raw, r.subs raw = ((routeKey raw).bind held).map fun qos => [qos.toU8]
  inflight : r.inflight = some s.encodeInflight ∨
    r.inflight = none ∧ s.nextId = 1 ∧ s.inflight = []

namespace Session

/-- The same counter and the same queue up to the times entries are due, which a
blob does not show. -/
structure SameQueue (s s' : Session) : Prop where
  nextId : s'.nextId = s.nextId
  inflight : s'.inflight.map (fun e => (e.state, e.attempts)) =
    s.inflight.map fun e => (e.state, e.attempts)

/-- The times are not in the blob. -/
theorem SameQueue.encodeInflight {s s' : Session} (hsame : SameQueue s s') :
    s'.encodeInflight = s.encodeInflight := by
  have hentries : ∀ queue : List InflightEntry, queue.flatMap encodeEntry =
      (queue.map fun e => (e.state, e.attempts)).flatMap fun e => encodeEntry ⟨e.1, e.2, 0⟩ := by
    intro queue
    rw [List.flatMap_map]
    rfl
  rw [Session.encodeInflight, hsame.nextId, hentries, hsame.inflight, ← hentries,
    Session.encodeInflight]

theorem sameQueue_retransmit (s : Session) (now : Nat) (cfg : RetryConfig) :
    SameQueue s (s.retransmit now cfg) := by
  refine ⟨rfl, ?_⟩
  simp only [retransmit, List.map_map]
  rfl

variable {held : Option String × String → Option QoS} {s s' : Session} {r : ClientRecord}

/-- A fresh record fits a session that has nothing to write. -/
theorem recordedAs_blank (hheld : ∀ key, held key = none) (hid : s.nextId = 1)
    (hqueue : s.inflight = []) :
    s.RecordedAs held { ClientRecord.empty with expiry := some s.expirySecs } := by
  refine ⟨rfl, fun raw => ?_, Or.inr ⟨rfl, hid, hqueue⟩⟩
  cases hkey : routeKey raw with
  | none => rfl
  | some key =>
      rw [Option.bind_some, hheld]
      rfl

/-- The record does not change with the times. -/
theorem RecordedAs.sameQueue (hrecord : s.RecordedAs held r) (hsame : SameQueue s s') :
    s'.RecordedAs held { r with expiry := some s'.expirySecs } := by
  refine ⟨rfl, hrecord.subs, ?_⟩
  rcases hrecord.inflight with hblob | ⟨hblob, hid, hqueue⟩
  · exact Or.inl (hblob.trans (by rw [hsame.encodeInflight]))
  · refine Or.inr ⟨hblob, hsame.nextId.trans hid, ?_⟩
    have hmap := hsame.inflight
    rw [hqueue] at hmap
    exact List.map_eq_nil_iff.mp hmap

/-- Setting or clearing one subscription and its row. -/
theorem RecordedAs.edit (hrecord : s.RecordedAs held r) {raw : String}
    {key : Option String × String} {value : Option QoS}
    (hraw : routeKey raw = some key ∨ routeKey raw = none ∧ value = none)
    (hkey : ∀ raw', routeKey raw' = some key → raw' = raw) :
    s.RecordedAs (Function.update held key value)
      { r with subs := Function.update r.subs raw (value.map fun qos => [qos.toU8]) } := by
  refine ⟨hrecord.expiry, fun raw' => ?_, hrecord.inflight⟩
  dsimp only
  by_cases heq : raw' = raw
  · subst heq
    rw [Function.update_self]
    rcases hraw with hraw | ⟨hraw, hvalue⟩
    · rw [hraw, Option.bind_some, Function.update_self]
    · rw [hraw, hvalue]
      rfl
  · rw [Function.update_of_ne heq, hrecord.subs]
    cases hk : routeKey raw' with
    | none => rfl
    | some k =>
        have hne : k ≠ key := by
          rintro rfl
          exact heq (hkey raw' hk)
        rw [Option.bind_some, Option.bind_some, Function.update_of_ne hne]

end Session

namespace Hub

def held (h : Hub) (id : ClientId) (key : Option String × String) : Option QoS :=
  h.router.granted ⟨id, key.1, key.2⟩

/-- The client's record is that of its durable session, if it has one. -/
structure Faithful (h : Hub) (client : String) : Prop where
  durable : ∀ id s, h.sessions.byId.lookup id = some s → s.clientId = client →
    0 < s.expirySecs → s.RecordedAs (h.held id) (h.record client)
  absent : (∀ id s, h.sessions.byId.lookup id = some s → s.clientId = client →
    s.expirySecs = 0) → h.record client = .empty

/-- Everything in memory and in the store agrees, client by client. -/
structure Backed (h : Hub) : Prop where
  disk : h.disk.isSome
  clean : ∀ id s, h.sessions.byId.lookup id = some s → CleanId s.clientId
  /-- Subscriptions belong to handles given out, and come from a string. -/
  routed : ∀ key, h.router.granted key ≠ none →
    key.client < h.nextId ∧ ∃ raw, routeKey raw = some (key.group, key.filter)
  rows : ∀ client, (h.record client).expiry ≠ none → CleanId client
  faithful : ∀ client, CleanId client → h.Faithful client

structure Mirrored (h : Hub) : Prop extends Backed h where
  consistent : h.Consistent

/-- Clients whose session, subscriptions and record an operation leaves alone. -/
theorem Faithful.transfer {h h' : Hub} {client : String} (hfaithful : h.Faithful client)
    (hsame : ∀ id s, s.clientId = client →
      (h'.sessions.byId.lookup id = some s ↔ h.sessions.byId.lookup id = some s))
    (hheld : ∀ id s, h.sessions.byId.lookup id = some s → s.clientId = client →
      0 < s.expirySecs → h'.held id = h.held id)
    (hrecord : h'.record client = h.record client) : h'.Faithful client where
  durable id s hs hclient hpos := by
    have hs := (hsame id s hclient).mp hs
    rw [hheld id s hs hclient hpos, hrecord]
    exact hfaithful.durable id s hs hclient hpos
  absent hnone := by
    rw [hrecord]
    exact hfaithful.absent fun id s hs hclient =>
      hnone id s ((hsame id s hclient).mpr hs) hclient

/-- The mirror looks at sessions, index, subscriptions and records only. -/
theorem Mirrored.of_record_eq {h h' : Hub} (hm : h.Mirrored) (hdisk : h'.disk.isSome)
    (hbyId : h'.sessions.byId = h.sessions.byId) (hidOf : h'.sessions.idOf = h.sessions.idOf)
    (hrouter : h'.router = h.router) (hnext : h'.nextId = h.nextId)
    (hrecord : ∀ client, h'.record client = h.record client) : h'.Mirrored where
  disk := hdisk
  consistent := by
    have hclientOf : h'.sessions.clientOf = h.sessions.clientOf := by
      funext id
      rw [SessionTable.clientOf, hbyId, SessionTable.clientOf]
    unfold Consistent
    rw [hclientOf, hidOf, hnext]
    exact hm.consistent
  clean := by
    rw [hbyId]
    exact hm.clean
  routed := by
    rw [hrouter, hnext]
    exact hm.routed
  rows client := by
    rw [hrecord]
    exact hm.rows client
  faithful client hclient := by
    refine (hm.faithful client hclient).transfer ?_ ?_ (hrecord client)
    · intro id s _
      rw [hbyId]
    · intro id s _ _ _
      unfold held
      rw [hrouter]

/-! ## Operations on in-flight queues -/

theorem quiet_announce (h : Hub) (topic : String) (payload : Bytes) (qos : QoS) (retain : Bool)
    (ts : Nat) : Quiet h (h.announce topic payload qos retain ts) := by
  unfold announce journal Hub.retain
  split <;> split <;> exact ⟨rfl, rfl, rfl, rfl⟩

/-- The locked part changes neither the table nor what the router holds. -/
structure Steady (h h' : Hub) : Prop where
  clientOf : h'.sessions.clientOf = h.sessions.clientOf
  idOf : h'.sessions.idOf = h.sessions.idOf
  nextId : h'.nextId = h.nextId
  granted : h'.router.granted = h.router.granted

theorem Quiet.steady {h h' : Hub} (hquiet : Quiet h h') : Steady h h' :=
  ⟨hquiet.clientOf, hquiet.idOf, hquiet.nextId, congrArg Router.granted hquiet.router⟩

theorem Steady.trans {h₁ h₂ h₃ : Hub} (h₁₂ : Steady h₁ h₂) (h₂₃ : Steady h₂ h₃) : Steady h₁ h₃ :=
  ⟨h₂₃.clientOf.trans h₁₂.clientOf, h₂₃.idOf.trans h₁₂.idOf, h₂₃.nextId.trans h₁₂.nextId,
    h₂₃.granted.trans h₁₂.granted⟩

theorem steady_writeAll (h : Hub) (snapshots : List (String × Bytes)) :
    Steady h (h.writeAll snapshots) := by
  induction snapshots generalizing h with
  | nil => exact (Quiet.refl h).steady
  | cons snap rest ih => exact (quiet_enqueue h _).steady.trans (ih (h.writeInflight snap))

/-- What is delivered or acknowledged changes queues only. -/
theorem steady_locked {h h' : Hub} {op : InflightOp} {snapshots : List (String × Bytes)}
    (hlocked : h.locked op = some (snapshots, h')) : Steady h h' := by
  cases op with
  | publish topic payload msgQos retain clock =>
      obtain ⟨f, hf, heq⟩ := Option.map_eq_some_iff.mp hlocked
      cases heq
      have hannounce := (quiet_announce h topic payload msgQos retain clock.ts).steady
      have hroute : Steady (h.announce topic payload msgQos retain clock.ts)
          ((h.announce topic payload msgQos retain clock.ts).routeTopic topic).2 :=
        ⟨rfl, rfl, rfl, Router.granted_route _ topic⟩
      exact (hannounce.trans hroute).trans (still_deliverAll hf).quiet.steady
  | deliverRetained id filter granted now =>
      simp only [locked] at hlocked
      split at hlocked
      · cases hlocked
        exact (Quiet.refl h).steady
      · obtain ⟨⟨snapshot, h''⟩, hreplay, heq⟩ := Option.map_eq_some_iff.mp hlocked
        cases heq
        exact (still_replayRetained hreplay).quiet.steady
  | acknowledge id ack =>
      cases hlocked
      exact (still_acknowledge h id ack).quiet.steady
  | runRetries now =>
      cases hlocked
      exact (still_tickAll h now).quiet.steady

theorem QueuesAll.writeAll_aside {h h' : Hub} (hqueues : QueuesAll PersistOp.Aside h h')
    (snapshots : List (String × Bytes)) : QueuesAll PersistOp.Aside h (h'.writeAll snapshots) :=
  hqueues.writeAll fun _ _ => trivial

theorem aside_locked {h h' : Hub} {op : InflightOp} {snapshots : List (String × Bytes)}
    (hlocked : h.locked op = some (snapshots, h')) : QueuesAll PersistOp.Aside h h' := by
  have hsame : QueuesAll PersistOp.Aside h h := queuesAll_same rfl rfl
  cases op with
  | publish topic payload msgQos retain clock =>
      obtain ⟨f, hf, heq⟩ := Option.map_eq_some_iff.mp hlocked
      cases heq
      have hannounce : QueuesAll PersistOp.Aside h
          (h.announce topic payload msgQos retain clock.ts) :=
        queuesAll_announce (fun _ => trivial) (fun _ _ => trivial) _
      exact hannounce.trans_same (disk_deliverAll hf).1 (disk_deliverAll hf).2
  | deliverRetained id filter granted now =>
      simp only [locked] at hlocked
      split at hlocked
      · cases hlocked
        exact hsame
      · obtain ⟨⟨snapshot, h''⟩, hreplay, heq⟩ := Option.map_eq_some_iff.mp hlocked
        cases heq
        exact queuesAll_replayRetained hreplay
  | acknowledge id ack =>
      cases hlocked
      exact queuesAll_acknowledge h id ack
  | runRetries now =>
      cases hlocked
      exact queuesAll_same rfl rfl

section Locked

variable {h h' : Hub} (hm : h.Mirrored) {op : InflightOp} {snapshots : List (String × Bytes)}
  (hlocked : h.locked op = some (snapshots, h'))

include hm hlocked

theorem inflight_record_locked (client : String) :
    ((h'.writeAll snapshots).record client).inflight =
      match latest client snapshots with
      | some blob => if blob = [] then none else some blob
      | none => (h.record client).inflight := by
  obtain ⟨-, hrow, hdisk'⟩ := snapshots_locked hm.disk hlocked
  have hwritten := inflightRow_writeAll hdisk' client snapshots
  rw [hrow, ← inflight_record, ← inflight_record] at hwritten
  exact hwritten.trans (by cases latest client snapshots <;> rfl)

/-- Sessions that were snapshotted get the row of their new queue, the others keep
row and queue. -/
theorem recordedAs_locked {id : ClientId} {s' : Session}
    (hs' : h'.sessions.byId.lookup id = some s') (hpos : 0 < s'.expirySecs)
    (hclean : CleanId s'.clientId) :
    s'.RecordedAs ((h'.writeAll snapshots).held id)
      ((h'.writeAll snapshots).record s'.clientId) := by
  have hsteady := (steady_locked hlocked).trans (steady_writeAll h' snapshots)
  obtain ⟨hexpiry, hsubs⟩ :=
    ((aside_locked hlocked).writeAll_aside snapshots).record_aside s'.clientId
  obtain ⟨hsnap, -, -⟩ := snapshots_locked hm.disk hlocked
  obtain ⟨s, hs, hclient, hexpirySecs, hsame⟩ := hsnap.kept id s' hs'
  have hold := (hm.faithful s'.clientId hclean).durable id s hs hclient.symm (hexpirySecs ▸ hpos)
  refine ⟨?_, ?_, ?_⟩
  · rw [hexpiry, hold.expiry, hexpirySecs]
  · intro raw
    rw [hsubs, hold.subs]
    unfold held
    rw [hsteady.granted]
  · rw [inflight_record_locked hm hlocked]
    cases hlatest : latest s'.clientId snapshots with
    | some blob =>
        -- the last snapshot of the client is of this very session
        have hcons : h'.Consistent := hm.consistent.reaches (reaches_locked hlocked)
        obtain ⟨i, t, ht, htclient, -, rfl⟩ := hsnap.taken s'.clientId blob hlatest
        have hid := hcons.id_unique ht hs' htclient
        subst hid
        rw [hs'] at ht
        cases ht
        exact Or.inl (if_neg s'.encodeInflight_ne_nil)
    | none =>
        obtain ⟨hid, hqueue⟩ := hsame (hclient ▸ hlatest) (hexpirySecs ▸ hpos)
        rw [Session.encodeInflight, hid, hqueue]
        exact hold.inflight

/-- A client without a durable session is not snapshotted and keeps its empty
record. -/
theorem record_locked_eq_empty {client : String} (hclean : CleanId client)
    (hnone : ∀ id s, h'.sessions.byId.lookup id = some s → s.clientId = client →
      s.expirySecs = 0) : (h'.writeAll snapshots).record client = .empty := by
  obtain ⟨hexpiry, hsubs⟩ := ((aside_locked hlocked).writeAll_aside snapshots).record_aside client
  obtain ⟨hsnap, -, -⟩ := snapshots_locked hm.disk hlocked
  have hempty : h.record client = .empty := by
    refine (hm.faithful client hclean).absent fun id s hs hclient => ?_
    have hclientOf : h'.sessions.clientOf id = some client := by
      rw [(steady_locked hlocked).clientOf]
      exact clientOf_eq_some_iff.mpr ⟨s, hs, hclient⟩
    obtain ⟨s', hs', hclient'⟩ := clientOf_eq_some_iff.mp hclientOf
    obtain ⟨s₀, hs₀, -, hexpirySecs, -⟩ := hsnap.kept id s' hs'
    rw [hs] at hs₀
    cases hs₀
    exact hexpirySecs ▸ hnone id s' hs' hclient'
  have hlatest : latest client snapshots = none := by
    rw [Option.eq_none_iff_forall_ne_some]
    intro blob hblob
    obtain ⟨i, t, ht, htclient, hpos, -⟩ := hsnap.taken client blob hblob
    exact hpos.ne' (hnone i t ht htclient)
  ext1
  · rw [hexpiry, hempty]
  · rw [hsubs, hempty]
  · rw [inflight_record_locked hm hlocked, hlatest, hempty]

/-- An operation on in-flight queues with its writes. -/
theorem Mirrored.locked : (h'.writeAll snapshots).Mirrored := by
  have hsteady := (steady_locked hlocked).trans (steady_writeAll h' snapshots)
  have haside := (aside_locked hlocked).writeAll_aside snapshots
  have hcons : h'.Consistent := hm.consistent.reaches (reaches_locked hlocked)
  have hlookup : ∀ id, (h'.writeAll snapshots).sessions.byId.lookup id =
      h'.sessions.byId.lookup id := fun id => by rw [sessions_writeAll]
  refine ⟨⟨?_, ?_, ?_, ?_, ?_⟩, hcons.reaches (reaches_writeAll h' snapshots)⟩
  · obtain ⟨ops, hops, -⟩ := haside
    rw [hops.disk, Option.isSome_map]
    exact hm.disk
  · intro id s' hs'
    obtain ⟨hsnap, -, -⟩ := snapshots_locked hm.disk hlocked
    obtain ⟨s, hs, hclient, -, -⟩ := hsnap.kept id s' (hlookup id ▸ hs')
    rw [hclient]
    exact hm.clean id s hs
  · rw [hsteady.granted, hsteady.nextId]
    exact hm.routed
  · intro client
    rw [(haside.record_aside client).1]
    exact hm.rows client
  · intro client hclean
    constructor
    · rintro id s' hs' rfl hpos
      exact recordedAs_locked hm hlocked (hlookup id ▸ hs') hpos hclean
    · intro hnone
      exact record_locked_eq_empty hm hlocked hclean fun id s hs =>
        hnone id s ((hlookup id).trans hs)

end Locked

/-- The snapshots of a publish keep the rows of all its targets exact. -/
theorem Mirrored.publish {h h' : Hub} (hm : h.Mirrored) {topic : String} {payload : Bytes}
    {msgQos : QoS} {retain : Bool} {clock : Clock} {n : Nat}
    (hpublish : h.publish topic payload msgQos retain clock = some (n, h')) : h'.Mirrored := by
  have hlocked := publish_eq_locked h topic payload msgQos retain clock
  rw [hpublish, Option.map_some, eq_comm, Option.map_eq_some_iff] at hlocked
  obtain ⟨⟨snapshots, h₁⟩, hlocked, rfl⟩ := hlocked
  exact hm.locked hlocked

theorem Mirrored.deliverRetained {h h' : Hub} (hm : h.Mirrored) {id : ClientId}
    {filter : TopicFilter} {granted : QoS} {now : Nat}
    (hdeliver : h.deliverRetained id filter granted now = some h') : h'.Mirrored := by
  rw [deliverRetained_eq_locked] at hdeliver
  obtain ⟨⟨snapshots, h₁⟩, hlocked, rfl⟩ := Option.map_eq_some_iff.mp hdeliver
  exact hm.locked hlocked

theorem Mirrored.onAck {h : Hub} (hm : h.Mirrored) (id : ClientId) (ack : Ack) :
    (h.onAck id ack.apply).Mirrored := by
  obtain ⟨⟨snapshots, h₁⟩, hlocked, heq⟩ :=
    Option.map_eq_some_iff.mp (onAck_eq_locked h id ack).symm
  rw [← heq]
  exact hm.locked hlocked

/-- Writes that are not about any client. -/
theorem Mirrored.appendDeadLetter {h : Hub} (hm : h.Mirrored) (blob : Bytes) :
    (h.enqueue (.appendDeadLetter blob)).Mirrored := by
  refine hm.of_record_eq ?_ rfl rfl rfl rfl fun client => ?_
  · rw [isSome_disk_enqueue]
    exact hm.disk
  · obtain ⟨d, hd⟩ := Option.isSome_iff_exists.mp hm.disk
    simp only [record, enqueue, hd, Option.map_some, Disk.settled_enqueue]
    rfl

theorem Mirrored.deadLetter {h h' : Hub} (hm : h.Mirrored) {clientId reason : String}
    {msg : DeadMsg} {clock : Clock}
    (hdead : h.deadLetter clientId msg reason clock = some h') : h'.Mirrored := by
  unfold Hub.deadLetter at hdead
  split at hdead
  · cases hdead
    exact hm
  · obtain ⟨⟨n, h''⟩, hpublish, rfl⟩ := Option.map_eq_some_iff.mp hdead
    exact (hm.appendDeadLetter _).publish hpublish

theorem Mirrored.deadLetterAll {h h' : Hub} (hm : h.Mirrored) {reason : String}
    {dead : List (String × DeadMsg)} {clock : Nat → Clock}
    (hdead : h.deadLetterAll reason dead clock = some h') : h'.Mirrored := by
  induction dead generalizing h clock with
  | nil =>
      cases hdead
      exact hm
  | cons msg rest ih =>
      obtain ⟨h₁, hfirst, hrest⟩ := Option.bind_eq_some_iff.mp hdead
      exact ih (hm.deadLetter hfirst) hrest

theorem Mirrored.runRetries {h h' : Hub} (hm : h.Mirrored) {clock : Nat → Clock}
    (hretries : h.runRetries clock = some h') : h'.Mirrored := by
  rw [runRetries_eq_locked] at hretries
  obtain ⟨⟨snapshots, h₁⟩, hlocked, hdead⟩ := Option.bind_eq_some_iff.mp hretries
  exact (hm.locked hlocked).deadLetterAll hdead

theorem Mirrored.work {h h' : Hub} (hm : h.Mirrored) (hwork : h.work = some h') :
    h'.Mirrored := by
  have hrecord := record_work hwork
  obtain ⟨d, d', -, -, rfl⟩ := exists_of_work hwork
  exact hm.of_record_eq rfl rfl rfl rfl rfl hrecord

/-! ## Operations on one client -/

end Hub

/-- The write is about the record of this client. -/
def PersistOp.About (client : String) : PersistOp → Prop
  | .putSession c _ => c = client
  | .removeSession c => c = client
  | .putSubscription c _ _ => c = client
  | .removeSubscription c _ => c = client
  | _ => False

/-- A write about one client leaves the records of the others. -/
theorem PersistOp.onRecord_of_ne {op : PersistOp} {client other : String} (hop : op.About client)
    (hne : other ≠ client) (r : ClientRecord) : op.onRecord other r = r := by
  cases op with
  | putSession c e =>
      cases hop
      simp [onRecord, expiryRow, subscriptionRow, inflightRow, Ne.symm hne]
  | removeSession c =>
      cases hop
      simp [onRecord, expiryRow, subscriptionRow, inflightRow, Ne.symm hne]
  | putSubscription c raw qos =>
      cases hop
      simp [onRecord, expiryRow, subscriptionRow, inflightRow, Ne.symm hne]
  | removeSubscription c raw =>
      cases hop
      simp [onRecord, expiryRow, subscriptionRow, inflightRow, Ne.symm hne]
  | putInflight _ _ => exact hop.elim
  | putRetained _ _ _ => exact hop.elim
  | appendDeadLetter _ => exact hop.elim
  | appendEvent _ _ => exact hop.elim
  | flush _ => exact hop.elim

theorem PersistOp.About.clean {op : PersistOp} {client : String} (hop : op.About client)
    (hclient : CleanId client) : op.Clean := by
  cases op with
  | putSession _ _ => trivial
  | removeSession _ => exact hop ▸ hclient
  | putSubscription _ _ _ => exact hop ▸ hclient
  | removeSubscription _ _ => exact hop ▸ hclient
  | putInflight _ _ => exact hop.elim
  | putRetained _ _ _ => exact hop.elim
  | appendDeadLetter _ => exact hop.elim
  | appendEvent _ _ => exact hop.elim
  | flush _ => exact hop.elim

namespace Hub

theorem expiry_record_enqueue {h : Hub} (hdisk : h.disk.isSome) (op : PersistOp)
    (client : String) :
    ((h.enqueue op).record client).expiry = op.expiryRow client (h.record client).expiry := by
  obtain ⟨d, hd⟩ := Option.isSome_iff_exists.mp hdisk
  simp only [record, enqueue, hd, Option.map_some, Disk.settled_enqueue]
  exact Storage.sessions_applyPersistOp _ op client

/-- An operation that touches the session, the subscriptions and the record of one
client only is fine if that client ends up faithful. -/
theorem Backed.update {h h' : Hub} (hb : h.Backed) {client : String} (hclient : CleanId client)
    {op : PersistOp} (hop : op.About client) (hdisk : h'.disk = (h.enqueue op).disk)
    (hothers : ∀ id s, s.clientId ≠ client →
      (h'.sessions.byId.lookup id = some s ↔ h.sessions.byId.lookup id = some s))
    (hheld : ∀ id s, h.sessions.byId.lookup id = some s → s.clientId ≠ client →
      h'.held id = h.held id)
    (hrouted : ∀ key, h'.router.granted key ≠ none →
      key.client < h'.nextId ∧ ∃ raw, routeKey raw = some (key.group, key.filter))
    (hfaithful : h'.Faithful client) : h'.Backed where
  disk := by
    rw [hdisk, isSome_disk_enqueue]
    exact hb.disk
  clean id s hs := by
    by_cases heq : s.clientId = client
    · rw [heq]
      exact hclient
    · exact hb.clean id s ((hothers id s heq).mp hs)
  routed := hrouted
  rows other hexpiry := by
    by_cases heq : other = client
    · rw [heq]
      exact hclient
    · refine hb.rows other ?_
      have hrow := congrArg ClientRecord.expiry
        (PersistOp.onRecord_of_ne hop heq (h.record other))
      rwa [record_congr hdisk, expiry_record_enqueue hb.disk, show op.expiryRow other
        (h.record other).expiry = (h.record other).expiry from hrow] at hexpiry
  faithful other hother := by
    by_cases heq : other = client
    · rw [heq]
      exact hfaithful
    · refine (hb.faithful other hother).transfer ?_ ?_ ?_
      · intro id s hs
        exact hothers id s (hs ▸ heq)
      · intro id s hs hid _
        exact hheld id s hs (hid ▸ heq)
      · rw [record_congr hdisk, record_enqueue hb.disk (hop.clean hclient) hother,
          PersistOp.onRecord_of_ne hop heq]

/-- Replacing the only session a client can have, with a write about the client. -/
theorem Backed.replace {h h' : Hub} (hb : h.Backed) {client : String} (hclient : CleanId client)
    {op : PersistOp} (hop : op.About client) (hdisk : h'.disk = (h.enqueue op).disk)
    {id : ClientId} {new : Option Session}
    (hlookup : ∀ i, h'.sessions.byId.lookup i = if i = id then new else h.sessions.byId.lookup i)
    (hold : ∀ i t, h.sessions.byId.lookup i = some t → (t.clientId = client ↔ i = id))
    (hnew : ∀ t, new = some t → t.clientId = client)
    (hheld : ∀ i, i ≠ id → h'.held i = h.held i)
    (hrouted : ∀ key, h'.router.granted key ≠ none →
      key.client < h'.nextId ∧ ∃ raw, routeKey raw = some (key.group, key.filter))
    (hdurable : ∀ t, new = some t → 0 < t.expirySecs →
      t.RecordedAs (h'.held id) (op.onRecord client (h.record client)))
    (habsent : (∀ t, new = some t → t.expirySecs = 0) →
      op.onRecord client (h.record client) = .empty) : h'.Backed := by
  have hrecord : h'.record client = op.onRecord client (h.record client) := by
    rw [record_congr hdisk, record_enqueue hb.disk (hop.clean hclient) hclient]
  refine hb.update hclient hop hdisk ?_ ?_ hrouted ⟨?_, ?_⟩
  · intro i t hne
    rw [hlookup]
    split
    next hi =>
      constructor
      · exact fun ht => absurd (hnew t ht) hne
      · exact fun ht => absurd ((hold i t ht).mpr hi) hne
    next => exact Iff.rfl
  · intro i t ht hne
    exact hheld i fun hi => hne ((hold i t ht).mpr hi)
  · intro i t ht htclient hpos
    rw [hlookup] at ht
    split at ht
    next hi =>
      subst hi
      rw [hrecord]
      exact hdurable t ht hpos
    next hi => exact absurd ((hold i t ht).mp htclient) hi
  · intro hnone
    rw [hrecord]
    refine habsent fun t ht => hnone id t ?_ (hnew t ht)
    rw [hlookup, if_pos rfl, ht]

end Hub

end Relay
