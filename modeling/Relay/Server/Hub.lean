import Relay.Core.Retained
import Relay.Core.Router
import Relay.Server.Codec
import Relay.Server.Storage

/-! # The hub

Shared broker state and its operations. Every lock scope of the source is a
function of its own; an operation that takes locks one after the other is
composed of them, so that other operations can be placed in between. `none` is a
panic of the source, after which the poisoned locks stop the broker.

Counters of clients and generations do not wrap. The two clocks are read through
`Clock`; an operation that reads them repeatedly takes a sequence of readings.
-/

namespace Relay

structure SessionTable where
  byId : AssocMap ClientId Session
  idOf : AssocMap String ClientId
  generation : Nat

/-- A scheduled call of `purge_if_idle`. -/
structure Purge where
  id : ClientId
  generation : Nat
  afterSecs : Nat
deriving DecidableEq

structure Clock where
  now : Nat
  ts : Nat
deriving DecidableEq

structure Hub where
  nextId : Nat
  router : Router
  retained : RetainedStore
  sessions : SessionTable
  disk : Option Disk
  retry : RetryConfig
  eventLogMax : Nat
  timers : List Purge

structure Connected where
  id : ClientId
  generation : Nat
  sessionPresent : Bool
deriving DecidableEq

def noExpiry : Nat := 2 ^ 32 - 1

namespace Hub

/-! ## Durable writes -/

/-- Queue a durable write; nothing happens in memory-only mode. -/
def enqueue (h : Hub) (op : PersistOp) : Hub := { h with disk := h.disk.map (·.enqueue op) }

def flush (h : Hub) (ack : Nat) : Hub := h.enqueue (.flush ack)

def work (h : Hub) : Option Hub := do
  let d ← h.disk
  let d ← d.work
  some { h with disk := some d }

def persistMeta (h : Hub) (clientId : String) (expirySecs : Nat) : Hub :=
  if 0 < expirySecs then h.enqueue (.putSession clientId expirySecs)
  else h.enqueue (.removeSession clientId)

/-- Snapshot of the in-flight queue of a durable session. -/
def snapshotInflight (h : Hub) (s : Session) : Option (String × Bytes) :=
  if h.disk.isSome ∧ 0 < s.expirySecs then some (s.clientId, s.encodeInflight) else none

def writeInflight (h : Hub) (snapshot : String × Bytes) : Hub :=
  h.enqueue (.putInflight snapshot.1 snapshot.2)

def forgetPersisted (h : Hub) (clientId : String) : Hub := h.enqueue (.removeSession clientId)

/-- The client of a session that is durable at this moment. -/
def durableClient (h : Hub) (id : ClientId) : Option String :=
  ((h.sessions.byId.lookup id).filter fun s => 0 < s.expirySecs).map Session.clientId

def persistSubscription (h : Hub) (id : ClientId) (raw : String) (qos : QoS) : Hub :=
  match h.durableClient id with
  | some clientId => h.enqueue (.putSubscription clientId raw qos)
  | none => h

/-! ## Sessions coming and going -/

def setSession (h : Hub) (id : ClientId) (s : Session) : Hub :=
  { h with sessions := { h.sessions with byId := h.sessions.byId.modify id fun _ => s } }

/-- Enter a new online session under a fresh handle. -/
def register (h : Hub) (clientId : String) (expirySecs generation : Nat) : Hub :=
  { h with
    nextId := h.nextId + 1
    sessions :=
      { h.sessions with
        idOf := h.sessions.idOf.insert clientId h.nextId
        byId := h.sessions.byId.insert h.nextId
          (Session.new clientId (some []) expirySecs generation) } }

/-- What a clean start removes: the session and its subscriptions. -/
def dropSession (h : Hub) (id : ClientId) : Hub :=
  { h with
    router := h.router.removeClient id
    sessions := { h.sessions with byId := h.sessions.byId.erase id } }

def bumpGeneration (h : Hub) : Hub :=
  { h with sessions := { h.sessions with generation := h.sessions.generation + 1 } }

/-- Attach a connection: resume the client's session, or start a fresh one. -/
def connect (h : Hub) (clientId : String) (cleanStart : Bool) (expirySecs now : Nat) :
    Option (Connected × Hub) :=
  let h := h.bumpGeneration
  let generation := h.sessions.generation
  match h.sessions.idOf.lookup clientId with
  | some id =>
      if cleanStart then
        -- the old handle is given up, also if a connection still holds it
        let h := (h.dropSession id).forgetPersisted clientId
        let fresh := h.register clientId expirySecs generation
        some (⟨h.nextId, generation, false⟩, fresh.persistMeta clientId expirySecs)
      else
        match h.sessions.byId.lookup id with
        | none => none
        | some s =>
            -- the channel of a connection that is taken over is dropped here
            let attached : Session := { s with tx := some [], expirySecs, generation }
            let resumed := h.setSession id (attached.retransmit now h.retry)
            some (⟨id, generation, true⟩, resumed.persistMeta clientId expirySecs)
  | none =>
      let fresh := h.register clientId expirySecs generation
      some (⟨h.nextId, generation, false⟩, fresh.persistMeta clientId expirySecs)

/-- A CONNECT starts a session, replaces the client's session or resumes it. -/
theorem connect_cases {h h' : Hub} {clientId : String} {cleanStart : Bool} {expirySecs now : Nat}
    {c : Connected} (hconnect : h.connect clientId cleanStart expirySecs now = some (c, h')) :
    (h.sessions.idOf.lookup clientId = none ∧ c = ⟨h.nextId, h.sessions.generation + 1, false⟩ ∧
      h' = (h.bumpGeneration.register clientId expirySecs (h.sessions.generation + 1)).persistMeta
        clientId expirySecs) ∨
    (∃ id, h.sessions.idOf.lookup clientId = some id ∧ cleanStart = true ∧
      c = ⟨h.nextId, h.sessions.generation + 1, false⟩ ∧
      h' = (((h.bumpGeneration.dropSession id).forgetPersisted clientId).register clientId
        expirySecs (h.sessions.generation + 1)).persistMeta clientId expirySecs) ∨
    ∃ id s, h.sessions.idOf.lookup clientId = some id ∧ cleanStart = false ∧
      h.sessions.byId.lookup id = some s ∧ c = ⟨id, h.sessions.generation + 1, true⟩ ∧
      h' = (h.bumpGeneration.setSession id (Session.retransmit
        { s with tx := some [], expirySecs, generation := h.sessions.generation + 1 } now
        h.retry)).persistMeta clientId expirySecs := by
  simp only [connect] at hconnect
  split at hconnect
  next id hid =>
    cases cleanStart with
    | true =>
        cases hconnect
        exact Or.inr (Or.inl ⟨id, hid, rfl, rfl, rfl⟩)
    | false =>
        simp only [Bool.false_eq_true, if_false] at hconnect
        split at hconnect
        · cases hconnect
        next s hs =>
          cases hconnect
          exact Or.inr (Or.inr ⟨id, s, hid, rfl, hs, rfl, rfl⟩)
  next hnone =>
    cases hconnect
    exact Or.inl ⟨hnone, rfl, rfl⟩

/-- Remove a session entirely: table entries, subscriptions and disk record. -/
def discard (h : Hub) (id : ClientId) : Hub :=
  let gone : Hub :=
    { h with
      router := h.router.removeClient id
      sessions :=
        { h.sessions with
          byId := h.sessions.byId.erase id
          idOf := h.sessions.idOf.retain fun _ v => v ≠ id } }
  match h.sessions.byId.lookup id with
  | some s => gone.enqueue (.removeSession s.clientId)
  | none => gone

/-- Detach a connection, unless a newer one has taken the session over. -/
def detach (h : Hub) (id : ClientId) (generation : Nat) : Hub :=
  match h.sessions.byId.lookup id with
  | some s =>
      if s.generation = generation then
        let offline := h.setSession id { s with tx := none }
        if s.expirySecs = 0 then offline.discard id
        else if s.expirySecs ≠ noExpiry then
          -- a resume does not cancel the timer, it moves the generation on
          { offline with timers := offline.timers ++ [⟨id, generation, s.expirySecs⟩] }
        else offline
      else h
  | none => h

/-- The locked part of `purge_if_idle`: drop a session still offline at this
generation; its undelivered messages are to be dead-lettered. -/
def expire (h : Hub) (id : ClientId) (generation : Nat) : List (String × DeadMsg) × Hub :=
  match h.sessions.byId.lookup id with
  | some s =>
      if s.generation = generation ∧ s.tx = none then
        (s.drainUndelivered.2.map fun d => (s.clientId, d),
          (h.setSession id s.drainUndelivered.1).discard id)
      else ([], h)
  | none => ([], h)

/-- A detach does nothing, removes the session or leaves it offline. -/
theorem detach_cases (h : Hub) (id : ClientId) (generation : Nat) :
    (h.detach id generation = h ∧
      ∀ s, h.sessions.byId.lookup id = some s → s.generation ≠ generation) ∨
    ∃ s, h.sessions.byId.lookup id = some s ∧ s.generation = generation ∧
      (s.expirySecs = 0 ∧
        h.detach id generation = (h.setSession id { s with tx := none }).discard id ∨
      s.expirySecs ≠ 0 ∧ ∃ timers, h.detach id generation =
        { h.setSession id { s with tx := none } with timers := timers }) := by
  unfold detach
  cases hs : h.sessions.byId.lookup id with
  | none => exact Or.inl ⟨rfl, fun s hsome => by cases hsome⟩
  | some s =>
      by_cases hgeneration : s.generation = generation
      · refine Or.inr ⟨s, rfl, hgeneration, ?_⟩
        simp only [hgeneration, if_true]
        by_cases hexpiry : s.expirySecs = 0
        · exact Or.inl ⟨hexpiry, if_pos hexpiry⟩
        · refine Or.inr ⟨hexpiry, ?_⟩
          rw [if_neg hexpiry]
          split
          · exact ⟨_, rfl⟩
          · exact ⟨h.timers, rfl⟩
      · refine Or.inl ⟨if_neg hgeneration, fun s' hs' => ?_⟩
        cases hs'
        exact hgeneration

/-- An expiry does nothing, or removes a session that is offline at the generation. -/
theorem expire_cases (h : Hub) (id : ClientId) (generation : Nat) :
    (h.expire id generation = ([], h) ∧
      ∀ s, h.sessions.byId.lookup id = some s → ¬ (s.generation = generation ∧ s.tx = none)) ∨
    ∃ s, h.sessions.byId.lookup id = some s ∧ (s.generation = generation ∧ s.tx = none) ∧
      h.expire id generation = (s.drainUndelivered.2.map fun d => (s.clientId, d),
        (h.setSession id s.drainUndelivered.1).discard id) := by
  unfold expire
  cases hs : h.sessions.byId.lookup id with
  | none => exact Or.inl ⟨rfl, fun s hsome => by cases hsome⟩
  | some s =>
      by_cases hidle : s.generation = generation ∧ s.tx = none
      · exact Or.inr ⟨s, rfl, hidle, if_pos hidle⟩
      · refine Or.inl ⟨if_neg hidle, fun s' hs' => ?_⟩
        cases hs'
        exact hidle

/-! ## Publishing -/

/-- State of the delivery loop of a publish. -/
structure Fanout where
  delivered : Nat
  toPersist : List (String × Bytes)
  hub : Hub

/-- Deliver to one target; a target without a session is skipped. -/
def deliverTo (topic : String) (payload : Bytes) (msgQos : QoS) (now : Nat) (f : Fanout)
    (target : ClientId × QoS) : Option Fanout :=
  match f.hub.sessions.byId.lookup target.1 with
  | none => some f
  | some s => do
      let effective := min msgQos target.2
      let s ← s.deliver topic payload effective false now f.hub.retry
      -- QoS 0 leaves the queue as it was
      let snapshot := if effective = .atMostOnce then none else f.hub.snapshotInflight s
      some
        { delivered := f.delivered + 1
          toPersist := f.toPersist ++ snapshot.toList
          hub := f.hub.setSession target.1 s }

def deliverAll (h : Hub) (targets : List (ClientId × QoS)) (topic : String) (payload : Bytes)
    (msgQos : QoS) (now : Nat) : Option Fanout :=
  targets.foldlM (deliverTo topic payload msgQos now) ⟨0, [], h⟩

def writeAll (h : Hub) (snapshots : List (String × Bytes)) : Hub := snapshots.foldl writeInflight h

def retain (h : Hub) (topic : String) (payload : Bytes) (qos : QoS) : Hub :=
  let kept : Hub :=
    { h with retained := h.retained.apply { topic, payload, qos, retain := true } }
  kept.enqueue (.putRetained topic payload qos)

/-- Append to the event log; topics that begin with `$` are not journalled. -/
def journal (h : Hub) (topic : String) (payload : Bytes) (qos : QoS) (ts : Nat) : Hub :=
  if 0 < h.eventLogMax ∧ ¬ Text.startsWithChar '$' topic then
    h.enqueue (.appendEvent (encodeEvent ts topic qos payload) h.eventLogMax)
  else h

def routeTopic (h : Hub) (topic : String) : List (ClientId × QoS) × Hub :=
  ((h.router.route topic).1, { h with router := (h.router.route topic).2 })

/-- What a publish does before it routes: retained store and event log. -/
def announce (h : Hub) (topic : String) (payload : Bytes) (qos : QoS) (retain : Bool) (ts : Nat) :
    Hub :=
  (if retain then h.retain topic payload qos else h).journal topic payload qos ts

def fanOut (h : Hub) (topic : String) (payload : Bytes) (msgQos : QoS) (now : Nat) :
    Option (Nat × Hub) :=
  let targets := (h.routeTopic topic).1
  let routed := (h.routeTopic topic).2
  if targets = [] then some (0, routed)
  else
    (routed.deliverAll targets topic payload msgQos now).map fun f =>
      (f.delivered, f.hub.writeAll f.toPersist)

/-- Deliver a PUBLISH to its recipients; returns how many sessions it reached. -/
def publish (h : Hub) (topic : String) (payload : Bytes) (msgQos : QoS) (retain : Bool)
    (clock : Clock) : Option (Nat × Hub) :=
  (h.announce topic payload msgQos retain clock.ts).fanOut topic payload msgQos clock.now

def dlqTopic (clientId topic : String) : String := "$dlq/" ++ clientId ++ "/" ++ topic

/-- Record a dead message and republish it under `$dlq/`. -/
def deadLetter (h : Hub) (clientId : String) (msg : DeadMsg) (reason : String) (clock : Clock) :
    Option Hub :=
  if isDlqTopic msg.publish.topic then some h
  else
    let blob := encodeDeadLetter clock.ts clientId msg.publish.topic reason msg.attempts
      msg.publish.qos msg.publish.payload
    ((h.enqueue (.appendDeadLetter blob)).publish (dlqTopic clientId msg.publish.topic)
      msg.publish.payload msg.publish.qos false clock).map Prod.snd

/-- Dead-letter messages in order, each with its own clock reading. -/
def deadLetterAll (h : Hub) (reason : String) :
    List (String × DeadMsg) → (Nat → Clock) → Option Hub
  | [], _ => some h
  | (clientId, msg) :: rest, clock => do
      let h' ← h.deadLetter clientId msg reason (clock 0)
      h'.deadLetterAll reason rest fun k => clock (k + 1)

def purgeIfIdle (h : Hub) (id : ClientId) (generation : Nat) (clock : Nat → Clock) : Option Hub :=
  (h.expire id generation).2.deadLetterAll "session_expired" (h.expire id generation).1 clock

/-- The retry tick of one session; offline sessions wait for a reconnect. -/
def tickSession (h : Hub) (now : Nat) (s : Session) : Session × List DeadMsg × Bool :=
  if s.tx = none then (s, [], false) else s.tickRetries now h.retry

/-- The locked loop of `run_retries`: dead messages, snapshots of the queues that
changed, and the hub. -/
def tickAll (h : Hub) (now : Nat) : List (String × DeadMsg) × List (String × Bytes) × Hub :=
  let visited := h.sessions.byId.values.map fun s => (s.clientId, h.tickSession now s)
  let dead := visited.flatMap fun v => v.2.2.1.map fun d => (v.1, d)
  let snapshots := visited.filterMap fun v => if v.2.2.2 then h.snapshotInflight v.2.1 else none
  let byId := h.sessions.byId.mapVal fun _ s => (h.tickSession now s).1
  (dead, snapshots, { h with sessions := { h.sessions with byId := byId } })

/-- Drive the redelivery timer. The clock is read once for the tick and once for
every dead message. -/
def runRetries (h : Hub) (clock : Nat → Clock) : Option Hub :=
  let (dead, snapshots, ticked) := h.tickAll (clock 0).now
  (ticked.writeAll snapshots).deadLetterAll "max_delivery_attempts_exceeded" dead fun k =>
    clock (k + 1)

/-! ## Subscriptions -/

def subscribe (h : Hub) (id : ClientId) (filter : TopicFilter) (qos : QoS) (raw : String) : Hub :=
  let routed : Hub := { h with router := h.router.subscribe id filter qos }
  routed.persistSubscription id raw qos

def subscribeShared (h : Hub) (group : String) (id : ClientId) (filter : TopicFilter) (qos : QoS)
    (raw : String) : Hub :=
  let routed : Hub := { h with router := h.router.subscribeShared group id filter qos }
  routed.persistSubscription id raw qos

/-- The router part of an unsubscribe; the flag says whether it existed. -/
def unroute (h : Hub) (id : ClientId) (raw : String) : Bool × Hub :=
  let unsubscribed :=
    match SharedSubscription.parse raw with
    | some shared => h.router.unsubscribeShared shared.group id shared.filter.asStr
    | none => h.router.unsubscribe id raw
  (unsubscribed.2, { h with router := unsubscribed.1 })

def forgetSubscription (h : Hub) (id : ClientId) (raw : String) : Hub :=
  match h.durableClient id with
  | some clientId => h.enqueue (.removeSubscription clientId raw)
  | none => h

def unsubscribe (h : Hub) (id : ClientId) (raw : String) : Bool × Hub :=
  ((h.unroute id raw).1, (h.unroute id raw).2.forgetSubscription id raw)

def deliverMessages (granted : QoS) (now : Nat) (cfg : RetryConfig) :
    List Message → Session → Option Session
  | [], s => some s
  | msg :: rest, s => do
      let s ← s.deliver msg.topic msg.payload (min msg.qos granted) true now cfg
      deliverMessages granted now cfg rest s

/-- The locked part of `deliver_retained`, with the snapshot it takes. -/
def replayRetained (h : Hub) (id : ClientId) (messages : List Message) (granted : QoS)
    (now : Nat) : Option (Option (String × Bytes) × Hub) :=
  match h.sessions.byId.lookup id with
  | none => some (none, h)
  | some s => do
      let s ← deliverMessages granted now h.retry messages s
      let queued := messages.any fun msg => min msg.qos granted ≠ .atMostOnce
      let snapshot := if queued then h.snapshotInflight s else none
      some (snapshot, h.setSession id s)

def deliverRetained (h : Hub) (id : ClientId) (filter : TopicFilter) (granted : QoS) (now : Nat) :
    Option Hub :=
  let messages := h.retained.matching filter
  if messages = [] then some h
  else (h.replayRetained id messages granted now).map fun r => r.2.writeAll r.1.toList

/-! ## Replay and acknowledgements -/

/-- The PUBLISH replayed for a logged event, if it decodes and matches. -/
def replayPacket (filter : TopicFilter) (event : Nat × Bytes) : Option Packet := do
  let (topic, payload, _) ← decodeEvent event.2
  if filter.matchesTopic topic then
    some (.publish
      { dup := false, retain := false, qos := .atMostOnce, topic, packetId := none, payload
        properties := { PublishProperties.default with
          userProperties := [("x-replay-offset", toString event.1)] } })
  else none

def replay (h : Hub) (id : ClientId) (start : Nat) (filter : TopicFilter) : Nat × Hub :=
  match h.disk with
  | none => (0, h)
  | some d =>
      match h.sessions.byId.lookup id with
      | none => (0, h)
      | some s =>
          let packets := (d.storage.loadEvents start).filterMap (replayPacket filter)
          (packets.length, h.setSession id (packets.foldl Session.send s))

/-- The locked part of an acknowledgement, with the snapshot it takes. -/
def acknowledge (h : Hub) (id : ClientId) (ack : Session → Session) :
    Option (String × Bytes) × Hub :=
  match h.sessions.byId.lookup id with
  | none => (none, h)
  | some s => (h.snapshotInflight (ack s), h.setSession id (ack s))

def onAck (h : Hub) (id : ClientId) (ack : Session → Session) : Hub :=
  (h.acknowledge id ack).2.writeAll (h.acknowledge id ack).1.toList

def onPuback (h : Hub) (id : ClientId) (pid : Nat) : Hub := h.onAck id (·.onPuback pid)

def onPubrec (h : Hub) (id : ClientId) (pid : Nat) : Hub := h.onAck id (·.onPubrec pid)

def onPubcomp (h : Hub) (id : ClientId) (pid : Nat) : Hub := h.onAck id (·.onPubcomp pid)

/-- Record an inbound QoS 2 packet id; true the first time. -/
def inboundQos2Seen (h : Hub) (id : ClientId) (pid : Nat) : Bool × Hub :=
  match h.sessions.byId.lookup id with
  | some s =>
      (pid ∉ s.incomingQos2, h.setSession id { s with incomingQos2 := insert pid s.incomingQos2 })
  | none => (true, h)

def inboundQos2Release (h : Hub) (id : ClientId) (pid : Nat) : Hub :=
  match h.sessions.byId.lookup id with
  | some s => h.setSession id { s with incomingQos2 := s.incomingQos2.erase pid }
  | none => h

/-! ## Startup -/

/-- Locals of the loop over the persisted sessions. -/
structure Loading where
  nextRaw : Nat
  router : Router
  sessions : SessionTable
  toExpire : List Purge

def restoreSubscription (id : ClientId) (router : Router) (sub : String × QoS) : Router :=
  match SharedSubscription.parse sub.1 with
  | some shared => router.subscribeShared shared.group id shared.filter sub.2
  | none =>
      match TopicFilter.parse sub.1 with
      | some filter => router.subscribe id filter sub.2
      | none => router

/-- The offline session of a persisted one, with its in-flight queue if the
stored blob decodes. -/
def restoreSession (st : Storage) (retry : RetryConfig) (now : Nat) (ps : PersistedSession) :
    Session :=
  let s := Session.new ps.clientId none ps.expirySecs 0
  match st.inflight[ps.clientId]?.bind fun blob => decodeInflight blob now retry with
  | some (nextId, queue) => { s with nextId := nextId, inflight := queue }
  | none => s

def loadSession (st : Storage) (retry : RetryConfig) (now : Nat) (l : Loading)
    (ps : PersistedSession) : Loading :=
  { nextRaw := l.nextRaw + 1
    router := ps.subscriptions.foldl (restoreSubscription l.nextRaw) l.router
    sessions :=
      { l.sessions with
        idOf := l.sessions.idOf.insert ps.clientId l.nextRaw
        byId := l.sessions.byId.insert l.nextRaw (restoreSession st retry now ps) }
    toExpire :=
      if ps.expirySecs = noExpiry then l.toExpire
      else l.toExpire ++ [⟨l.nextRaw, 0, ps.expirySecs⟩] }

def new (storage : Option Storage) (retry : RetryConfig) (eventLogMax now : Nat) : Hub :=
  let initial : Loading := ⟨1, Router.new, ⟨∅, ∅, 0⟩, []⟩
  let loaded :=
    match storage with
    | some st => st.loadSessions.foldl (loadSession st retry now) initial
    | none => initial
  { nextId := loaded.nextRaw
    router := loaded.router
    retained :=
      match storage with
      | some st => st.loadRetained.foldl RetainedStore.apply RetainedStore.new
      | none => RetainedStore.new
    sessions := loaded.sessions
    disk := storage.map fun st => ⟨st, [], []⟩
    retry := retry
    eventLogMax := eventLogMax
    timers := loaded.toExpire }

end Hub

end Relay
