import Relay.Server.Broker
import Relay.Server.Reload
import Relay.Server.Upkeep

/-! # Restarts

The hub's operations one at a time, with the worker and restarts in between. A
restart rebuilds exactly the durable sessions as long as no session becomes
durable after the fact: a resume that raises the expiry interval from 0 writes
the session row, but not what the session gathered while nothing was written.
-/

namespace Relay

/-- Operations of the hub. A SUBSCRIBE is one filter string, parsed the way the
connection does. -/
inductive HubOp where
  | connect (clientId : String) (cleanStart : Bool) (expirySecs now : Nat)
  | subscribe (id : ClientId) (raw : String) (qos : QoS)
  | unsubscribe (id : ClientId) (raw : String)
  | publish (topic : String) (payload : Bytes) (msgQos : QoS) (retain : Bool) (clock : Clock)
  | deliverRetained (id : ClientId) (filter : TopicFilter) (granted : QoS) (now : Nat)
  | onAck (id : ClientId) (ack : Ack)
  | runRetries (clock : Nat → Clock)
  | detach (id : ClientId) (generation : Nat)
  | purgeIfIdle (id : ClientId) (generation : Nat) (clock : Nat → Clock)
  | work
  | restart (retry : RetryConfig) (eventLogMax now : Nat)

namespace Hub

/-- An admitted filter of a SUBSCRIBE reaches the hub as its string. -/
theorem subscribeOne_eq (conn : Conn) (limit : Nat) (h : Hub) (id : ClientId) (raw : String)
    (qos : QoS) :
    (conn.subscribeOne limit h id raw qos).2.1 =
      if conn.admits limit raw = none then h.subscribeRaw id raw (min qos maxQos) else h := by
  unfold Conn.subscribeOne subscribeRaw
  cases conn.admits limit raw with
  | some refused => rfl
  | none =>
      cases SharedSubscription.parse raw with
      | some shared => rfl
      | none => cases TopicFilter.parse raw <;> rfl

def restart (h : Hub) (retry : RetryConfig) (eventLogMax now : Nat) : Option Hub :=
  h.disk.map fun d => new (some d.settled) retry eventLogMax now

def operate (h : Hub) : HubOp → Option Hub
  | .connect clientId cleanStart expirySecs now =>
      (h.connect clientId cleanStart expirySecs now).map Prod.snd
  | .subscribe id raw qos => if id < h.nextId then some (h.subscribeRaw id raw qos) else none
  | .unsubscribe id raw => some (h.unsubscribe id raw).2
  | .publish topic payload msgQos retain clock =>
      (h.publish topic payload msgQos retain clock).map Prod.snd
  | .deliverRetained id filter granted now => h.deliverRetained id filter granted now
  | .onAck id ack => some (h.onAck id ack.apply)
  | .runRetries clock => h.runRetries clock
  | .detach id generation => some (h.detach id generation)
  | .purgeIfIdle id generation clock => h.purgeIfIdle id generation clock
  | .work => h.work
  | .restart retry eventLogMax now => h.restart retry eventLogMax now

/-- Topics and payloads in flight fit the length fields of the blob. -/
def Fits (h : Hub) : Prop := ∀ s ∈ h.sessions.byId.values, ∀ e ∈ s.inflight, e.state.Fits

instance (state : Inflight) : Decidable state.Fits :=
  match state with
  | .qos1 _ => inferInstanceAs (Decidable (_ ∧ _))
  | .qos2AwaitRec _ => inferInstanceAs (Decidable (_ ∧ _))
  | .qos2AwaitComp _ => inferInstanceAs (Decidable True)

instance (h : Hub) : Decidable h.Fits :=
  inferInstanceAs (Decidable (∀ s ∈ h.sessions.byId.values, ∀ e ∈ s.inflight, e.state.Fits))

/-- The store keeps up with the operation: a resume does not make a session
durable that already has something to write, and a restart finds queues the blobs
can hold. -/
def KeepsUp (h : Hub) : HubOp → Prop
  | .connect clientId cleanStart expirySecs _ =>
      CleanId clientId ∧ (cleanStart = false → ∀ id ∈ h.sessions.idOf.lookup clientId,
        ∀ s ∈ h.sessions.byId.lookup id, s.expirySecs = 0 → 0 < expirySecs → h.Blank id s)
  | .restart _ _ _ => h.Fits
  | _ => True

instance (h : Hub) (op : HubOp) : Decidable (h.KeepsUp op) :=
  match op with
  | .connect _ _ _ _ => inferInstanceAs (Decidable (_ ∧ (_ → ∀ id ∈ _, ∀ s ∈ _, _)))
  | .restart _ _ _ => inferInstanceAs (Decidable h.Fits)
  | .subscribe .. | .unsubscribe .. | .publish .. | .deliverRetained .. | .onAck ..
  | .runRetries .. | .detach .. | .purgeIfIdle .. | .work => isTrue trivial

end Hub

/-- The same durable state: everything but connection, clocks and dedup set. -/
structure Session.Survives (s s' : Session) : Prop where
  clientId : s'.clientId = s.clientId
  expirySecs : s'.expirySecs = s.expirySecs
  nextId : s'.nextId = s.nextId
  /-- The queue up to the times at which its entries are due. -/
  inflight : s'.inflight.map (fun e => (e.state, e.attempts)) =
    s.inflight.map fun e => (e.state, e.attempts)

theorem Session.survives_restored (s : Session) (now : Nat) (retry : RetryConfig) :
    s.Survives (s.restored now retry) :=
  ⟨rfl, rfl, rfl, (s.sameQueue_restored now retry).inflight⟩

namespace Hub

/-- The second hub has the durable sessions of the first, with their
subscriptions, and no others. -/
structure RestartEquivalent (h h' : Hub) : Prop where
  rebuilt : ∀ id s, h.sessions.byId.lookup id = some s → 0 < s.expirySecs →
    ∃ id' s', h'.sessions.byId.lookup id' = some s' ∧ s.Survives s' ∧
      ∀ group filter, h'.router.granted ⟨id', group, filter⟩ =
        h.router.granted ⟨id, group, filter⟩
  only : ∀ id' s', h'.sessions.byId.lookup id' = some s' →
    ∃ id s, h.sessions.byId.lookup id = some s ∧ 0 < s.expirySecs ∧ s.Survives s'

/-! ## One restart -/

section Restart

variable {h : Hub} {d : Disk}

/-- Drained, the store has the records that the hub counts on. -/
theorem record_settled (hd : h.disk = some d) (client : String) :
    d.settled.record client = h.record client := by
  rw [record, hd]

/-- A row that is loaded belongs to a durable session. -/
theorem durable_of_persisted (hm : h.Mirrored) (hd : h.disk = some d) {ps : PersistedSession}
    (hps : ps ∈ d.settled.loadSessions) :
    ∃ id s, h.sessions.byId.lookup id = some s ∧ 0 < s.expirySecs ∧ s.clientId = ps.clientId := by
  have hrow := (Storage.mem_loadSessions.mp hps).1
  rw [record_settled hd] at hrow
  have hclean := hm.rows ps.clientId (by rw [hrow]; exact Option.some_ne_none _)
  by_contra hnone
  have hempty := (hm.faithful ps.clientId hclean).absent fun id s hs hclient => by
    by_contra hpos
    exact hnone ⟨id, s, hs, Nat.pos_of_ne_zero hpos, hclient⟩
  rw [hempty] at hrow
  cases hrow

variable (hm : h.Mirrored) (hcoded : h.Each Session.Coded) (hfits : h.Fits)
  (hd : h.disk = some d) (retry : RetryConfig) (eventLogMax now : Nat)

include hm hcoded hfits hd

/-- The row of a durable session loads as that session. -/
theorem persisted_of_durable {id : ClientId} {s : Session}
    (hs : h.sessions.byId.lookup id = some s) (hpos : 0 < s.expirySecs) :
    ∃ ps ∈ d.settled.loadSessions, ps.clientId = s.clientId ∧
      restoreSession d.settled retry now ps = s.restored now retry ∧ ps.held = h.held id := by
  have hclean := hm.clean id s hs
  have hrecord : s.RecordedAs (h.held id) (d.settled.record s.clientId) := by
    rw [record_settled hd]
    exact (hm.faithful s.clientId hclean).durable id s hs rfl hpos
  let ps : PersistedSession :=
    { clientId := s.clientId
      expirySecs := s.expirySecs
      subscriptions :=
        (d.settled.loadSubscriptions.filter fun sub => sub.1 = s.clientId).map Prod.snd }
  have hps : ps ∈ d.settled.loadSessions := Storage.mem_loadSessions.mpr ⟨hrecord.expiry, rfl⟩
  refine ⟨ps, hps, rfl, ?_, ?_⟩
  · exact restoreSession_eq rfl rfl hrecord (hcoded id s hs)
      (hfits s (AssocMap.mem_values_iff.mpr ⟨id, hs⟩)) retry now
  · exact PersistedSession.held_eq hps hclean hrecord fun key hkey =>
      (hm.routed ⟨id, key.1, key.2⟩ hkey).2

/-- A durable session comes back with its subscriptions. -/
theorem rebuilt_of_durable {id : ClientId} {s : Session}
    (hs : h.sessions.byId.lookup id = some s) (hpos : 0 < s.expirySecs) :
    ∃ id', (new (some d.settled) retry eventLogMax now).sessions.byId.lookup id' =
        some (s.restored now retry) ∧
      (new (some d.settled) retry eventLogMax now).held id' = h.held id := by
  obtain ⟨ps, hps, -, hsession, hheld⟩ := persisted_of_durable hm hcoded hfits hd retry now hs hpos
  obtain ⟨k, hk⟩ := List.mem_iff_getElem?.mp hps
  have hnew := rebuilt_new d.settled retry eventLogMax now
  have hslot : slot d.settled.loadSessions (k + 1) = some ps := hk
  refine ⟨k + 1, ?_, ?_⟩
  · rw [hnew.byId, hslot, Option.map_some, hsession]
  · funext key
    rw [held, hnew.granted, hslot, Option.bind_some, hheld]

/-- No session comes back that was not durable. -/
theorem durable_of_rebuilt {id' : ClientId} {s' : Session}
    (hs' : (new (some d.settled) retry eventLogMax now).sessions.byId.lookup id' = some s') :
    ∃ id s, h.sessions.byId.lookup id = some s ∧ 0 < s.expirySecs ∧
      s' = s.restored now retry ∧
      (new (some d.settled) retry eventLogMax now).held id' = h.held id := by
  have hnew := rebuilt_new d.settled retry eventLogMax now
  rw [hnew.byId, Option.map_eq_some_iff] at hs'
  obtain ⟨ps, hslot, rfl⟩ := hs'
  have hps : ps ∈ d.settled.loadSessions := mem_of_slot hslot
  obtain ⟨id, s, hs, hpos, hclient⟩ := durable_of_persisted hm hd hps
  obtain ⟨ps', hps', hclient', hsession, hheld⟩ :=
    persisted_of_durable hm hcoded hfits hd retry now hs hpos
  have hsame := Storage.eq_of_mem_loadSessions hps' hps (hclient'.trans hclient)
  subst hsame
  refine ⟨id, s, hs, hpos, hsession, ?_⟩
  funext key
  rw [held, hnew.granted, hslot, Option.bind_some, hheld]

theorem restartEquivalent_new :
    h.RestartEquivalent (new (some d.settled) retry eventLogMax now) where
  rebuilt id s hs hpos := by
    obtain ⟨id', hs', hheld⟩ :=
      rebuilt_of_durable hm hcoded hfits hd retry eventLogMax now hs hpos
    exact ⟨id', _, hs', s.survives_restored now retry,
      fun group filter => congrFun hheld (group, filter)⟩
  only id' s' hs' := by
    obtain ⟨id, s, hs, hpos, rfl, -⟩ :=
      durable_of_rebuilt hm hcoded hfits hd retry eventLogMax now hs'
    exact ⟨id, s, hs, hpos, s.survives_restored now retry⟩

/-- The rebuilt hub agrees with the store it was built from. -/
theorem mirrored_new : (new (some d.settled) retry eventLogMax now).Mirrored where
  disk := rfl
  consistent := consistent_new _ retry eventLogMax now
  clean id' s' hs' := by
    obtain ⟨id, s, hs, -, rfl, -⟩ :=
      durable_of_rebuilt hm hcoded hfits hd retry eventLogMax now hs'
    exact hm.clean id s hs
  routed := by
    rintro ⟨id', group, filter⟩ hkey
    have hnew := rebuilt_new d.settled retry eventLogMax now
    have hgranted := hnew.granted id' (group, filter)
    -- what is granted is granted to a rebuilt session
    cases hslot : slot d.settled.loadSessions id' with
    | none =>
        rw [hslot] at hgranted
        exact absurd hgranted hkey
    | some ps =>
        have hs' := hnew.byId id'
        rw [hslot, Option.map_some] at hs'
        obtain ⟨id, s, hs, hpos, -, hheld⟩ :=
          durable_of_rebuilt hm hcoded hfits hd retry eventLogMax now hs'
        have hkey' : h.router.granted ⟨id, group, filter⟩ ≠ none := by
          rw [← show _ = h.router.granted ⟨id, group, filter⟩ from congrFun hheld (group, filter)]
          exact hkey
        refine ⟨?_, (hm.routed _ hkey').2⟩
        have hlt : id' < d.settled.loadSessions.length + 1 := by
          cases id' with
          | zero => exact Nat.succ_pos _
          | succ k => exact Nat.succ_lt_succ (List.getElem?_eq_some_iff.mp hslot).1
        rw [hnew.nextRaw]
        exact hlt
  rows client hrow := by
    rw [show (new (some d.settled) retry eventLogMax now).record client = h.record client from
      record_settled hd client] at hrow
    exact hm.rows client hrow
  faithful client hclient := by
    have hrecord : (new (some d.settled) retry eventLogMax now).record client = h.record client :=
      record_settled hd client
    constructor
    · intro id' s' hs' hsclient _
      obtain ⟨id, s, hs, hpos, rfl, hheld⟩ :=
        durable_of_rebuilt hm hcoded hfits hd retry eventLogMax now hs'
      have hold := (hm.faithful client hclient).durable id s hs hsclient hpos
      have hnew := hold.sameQueue (s.sameQueue_restored now retry)
      rw [show (s.restored now retry).expirySecs = s.expirySecs from rfl, ← hold.expiry] at hnew
      rw [hheld, hrecord]
      exact hnew
    · intro hnone
      rw [hrecord]
      refine (hm.faithful client hclient).absent fun id s hs hsclient => ?_
      by_contra hpos
      obtain ⟨id', hs', -⟩ := rebuilt_of_durable hm hcoded hfits hd retry eventLogMax now hs
        (Nat.pos_of_ne_zero hpos)
      exact hpos (hnone id' (s.restored now retry) hs' hsclient)

theorem coded_new : (new (some d.settled) retry eventLogMax now).Each Session.Coded := by
  intro id' s' hs'
  obtain ⟨id, s, hs, -, rfl, -⟩ :=
    durable_of_rebuilt hm hcoded hfits hd retry eventLogMax now hs'
  have hretransmit := Session.kept_coded.retransmit now retry (hcoded id s hs)
  exact Session.kept_coded.frame hretransmit rfl rfl

end Restart

/-! ## Runs -/

/-- What holds between operations: the store mirrors the sessions, and their
queues can be written. -/
structure Restartable (h : Hub) : Prop where
  mirrored : h.Mirrored
  coded : h.Each Session.Coded

theorem restartable_empty (retry : RetryConfig) (eventLogMax now : Nat) :
    (new (some Storage.empty) retry eventLogMax now).Restartable := by
  have hbyId : ∀ id, (new (some Storage.empty) retry eventLogMax now).sessions.byId.lookup id =
      none := fun id => AList.lookup_empty id
  have hrecord : ∀ client, (new (some Storage.empty) retry eventLogMax now).record client =
      .empty := by
    intro client
    ext1
    · exact Std.TreeMap.getElem?_emptyc
    · funext raw
      exact Std.TreeMap.getElem?_emptyc
    · exact Std.TreeMap.getElem?_emptyc
  refine ⟨⟨⟨rfl, ?_, ?_, ?_, ?_⟩, consistent_new _ retry eventLogMax now⟩, ?_⟩
  · intro id s hs
    rw [hbyId] at hs
    cases hs
  · intro key hkey
    exact absurd (congrFun Router.granted_new key) hkey
  · intro client hrow
    rw [hrecord] at hrow
    exact absurd rfl hrow
  · intro client _
    refine ⟨?_, fun _ => hrecord client⟩
    intro id s hs
    rw [hbyId] at hs
    cases hs
  · intro id s hs
    rw [hbyId] at hs
    cases hs

/-- Every operation that the store keeps up with leaves the hub restartable. -/
theorem Restartable.operate {h h' : Hub} (hr : h.Restartable) {op : HubOp}
    (hkeeps : h.KeepsUp op) (hop : h.operate op = some h') : h'.Restartable := by
  -- every operation is a run of sections, which keeps the queues writable
  have hreach : h.Reaches h' → h'.Each Session.Coded := fun hreaches =>
    hr.coded.reaches Session.kept_coded hreaches
  cases op with
  | connect clientId cleanStart expirySecs now =>
      obtain ⟨⟨c, h₁⟩, hconnect, rfl⟩ := Option.map_eq_some_iff.mp hop
      refine ⟨hr.mirrored.connect hkeeps.1 ?_ hconnect, hreach (.single (.connect ..) hop)⟩
      intro id s hresume hs hclient
      have hid : h.sessions.clientOf id = some clientId := by
        rw [SessionTable.clientOf, hs, Option.map_some, hclient]
      exact hkeeps.2 hresume id ((hr.mirrored.consistent.inverse clientId id).mpr hid) s hs
  | subscribe id raw qos =>
      simp only [Hub.operate] at hop
      split at hop
      next hid =>
        cases hop
        exact ⟨hr.mirrored.subscribeRaw hid raw qos, hreach (reaches_subscribeRaw h id raw qos)⟩
      next => cases hop
  | unsubscribe id raw =>
      cases hop
      exact ⟨hr.mirrored.unsubscribe id raw, hreach (reaches_unsubscribe h id raw)⟩
  | publish topic payload msgQos retain clock =>
      obtain ⟨⟨n, h₁⟩, hpublish, rfl⟩ := Option.map_eq_some_iff.mp hop
      exact ⟨hr.mirrored.publish hpublish, hreach (reaches_publish hpublish)⟩
  | deliverRetained id filter granted now =>
      exact ⟨hr.mirrored.deliverRetained hop, hreach (reaches_deliverRetained hop)⟩
  | onAck id ack =>
      cases hop
      exact ⟨hr.mirrored.onAck id ack, hreach (reaches_onAck h id ack)⟩
  | runRetries clock => exact ⟨hr.mirrored.runRetries hop, hreach (reaches_runRetries hop)⟩
  | detach id generation =>
      cases hop
      exact ⟨hr.mirrored.detach id generation, hreach (.single (.detach id generation) rfl)⟩
  | purgeIfIdle id generation clock =>
      exact ⟨(hr.mirrored.expire id generation).deadLetterAll hop,
        hreach (reaches_purgeIfIdle hop)⟩
  | work => exact ⟨hr.mirrored.work hop, hreach (.single .work hop)⟩
  | restart retry eventLogMax now =>
      obtain ⟨d, hd, rfl⟩ := Option.map_eq_some_iff.mp hop
      exact ⟨mirrored_new hr.mirrored hr.coded hkeeps hd retry eventLogMax now,
        coded_new hr.mirrored hr.coded hkeeps hd retry eventLogMax now⟩

/-- Whatever configuration the hub is restarted with, it has the same durable
sessions. -/
def SurvivesRestart (h : Hub) : Prop :=
  ∀ retry eventLogMax now, ∃ h', h.restart retry eventLogMax now = some h' ∧
    h.RestartEquivalent h'

theorem Restartable.survivesRestart {h : Hub} (hr : h.Restartable) (hfits : h.Fits) :
    h.SurvivesRestart := by
  intro retry eventLogMax now
  obtain ⟨d, hd⟩ := Option.isSome_iff_exists.mp hr.mirrored.disk
  refine ⟨new (some d.settled) retry eventLogMax now, ?_, ?_⟩
  · rw [restart, hd, Option.map_some]
  · exact restartEquivalent_new hr.mirrored hr.coded hfits hd retry eventLogMax now

/-- In a run from an empty store whose operations the store keeps up with, every
state in which the queues fit survives a restart. -/
theorem survivesRestart_always (retry : RetryConfig) (eventLogMax now : Nat) (ops : List HubOp)
    (hkeeps : Machine.Meets operate KeepsUp (new (some Storage.empty) retry eventLogMax now) ops) :
    Machine.Always operate (fun h => h.Fits → h.SurvivesRestart)
      (new (some Storage.empty) retry eventLogMax now) ops :=
  Machine.always_of_meets Restartable KeepsUp (fun _ _ _ hr hok hop => hr.operate hok hop)
    (fun _ hr hfits => hr.survivesRestart hfits) (restartable_empty retry eventLogMax now) hkeeps

def takenOver : List HubOp :=
  [.connect "c" true 60 0, .subscribe 1 "t" .atLeastOnce,
    .publish "t" [7] .atLeastOnce false ⟨0, 0⟩, .connect "c" false 90 0,
    .restart ⟨3, 1, 10⟩ 0 0, .onAck 1 (.puback 1)]

theorem survivesRestart_takenOver :
    (Machine.run operate (new (some Storage.empty) ⟨3, 1, 10⟩ 0 0) takenOver).isSome ∧
      Machine.Always operate (fun h => h.Fits → h.SurvivesRestart)
        (new (some Storage.empty) ⟨3, 1, 10⟩ 0 0) takenOver :=
  ⟨by decide +kernel, survivesRestart_always ⟨3, 1, 10⟩ 0 0 takenOver (by decide +kernel)⟩

/-- A session subscribed while nothing was written, then resumed as durable. -/
def lateExpiry : List HubOp :=
  [.connect "c" true 0 0, .subscribe 1 "t" .atLeastOnce, .connect "c" false 60 0]

/-- The session row is written, the subscription row never was. -/
theorem survivesRestart_lost_by_resume :
    ∃ h, Machine.run operate (new (some Storage.empty) ⟨3, 1, 10⟩ 0 0) lateExpiry = some h ∧
      h.Fits ∧ ¬ h.SurvivesRestart := by
  refine ⟨_, rfl, by decide +kernel, fun hsurvives => ?_⟩
  obtain ⟨h', hrestart, hequiv⟩ := hsurvives ⟨3, 1, 10⟩ 0 0
  cases hrestart
  obtain ⟨id', s', -, -, hgranted⟩ := hequiv.rebuilt 1 _ rfl (by decide)
  have hlost := (congrFun Router.granted_new ⟨id', none, "t"⟩).symm.trans (hgranted none "t")
  exact absurd hlost (by decide +kernel)

end Hub

end Relay
