import Relay.Server.Handler

/-! # Operations as routines

The hub's operations with what they do between their lock scopes. A routine asks for
one thing at a time, a section of the hub, a look at something shared, the clock or
the socket, and goes on with the answer; anything else may happen in between. Run
alone, a routine does what the operation of the hub does.
-/

namespace Relay

/-! ## Sections with their answers -/

/-- What a section hands to the operation it is part of. -/
@[reducible] def Section.Result : Section → Type
  | .connect .. => Connected
  | .expire .. => List (String × DeadMsg)
  | .unroute .. => Bool
  | .route _ => List (ClientId × QoS)
  | .deliver .. => Nat × List (String × Bytes)
  | .replayRetained .. => Option (String × Bytes)
  | .tick _ => List (String × DeadMsg) × List (String × Bytes)
  | .acknowledge .. => Option (String × Bytes)
  | .qos2Seen .. => Bool
  | .send .. => Nat
  | _ => Unit

namespace Hub

/-- Perform a section and keep its answer. -/
def enter (h : Hub) : (a : Section) → Option (a.Result × Hub)
  | .connect clientId cleanStart expirySecs now => h.connect clientId cleanStart expirySecs now
  | .detach id generation => some ((), h.detach id generation)
  | .expire id generation => some (h.expire id generation)
  | .subscribe id filter qos => some ((), { h with router := h.router.subscribe id filter qos })
  | .subscribeShared group id filter qos =>
      some ((), { h with router := h.router.subscribeShared group id filter qos })
  | .unroute id raw => some (h.unroute id raw)
  | .route topic => some (h.routeTopic topic)
  | .retain message => some ((), { h with retained := h.retained.apply message })
  | .deliver targets topic payload msgQos now =>
      (h.deliverAll targets topic payload msgQos now).map fun f =>
        ((f.delivered, f.toPersist), f.hub)
  | .replayRetained id messages granted now => h.replayRetained id messages granted now
  | .tick now => some (((h.tickAll now).1, (h.tickAll now).2.1), (h.tickAll now).2.2)
  | .acknowledge id ack => some (h.acknowledge id ack.apply)
  | .qos2Seen id pid => some (h.inboundQos2Seen id pid)
  | .qos2Release id pid => some ((), h.inboundQos2Release id pid)
  | .send id packets =>
      -- without a session nothing is replayed
      some (((h.sessions.byId.lookup id).map fun _ => packets.length).getD 0, h.sendAll id packets)
  | .enqueue op => some ((), h.enqueue op)
  | .work => h.work.map fun h' => ((), h')

/-- A section is the same with or without its answer. -/
theorem act_eq_enter (h : Hub) (a : Section) : h.act a = (h.enter a).map Prod.snd := by
  cases a with
  | deliver targets topic payload msgQos now =>
      simp only [act, enter, Option.map_map]
      rfl
  | work =>
      simp only [act, enter, Option.map_map]
      exact Option.map_id'.symm
  | _ => rfl

end Hub

/-! ## Routines -/

/-- What a routine asks for next. -/
inductive Act where
  | enter (a : Section)
  | clock
  | matching (filter : TopicFilter)
  | events (start : Nat)
  | durable (id : ClientId)
  | logLimit
  | flush
  | acknowledged (ack : Nat)
  | send (reply : Reply)

/-- The answers. The events are those of the store, if there is one. -/
@[reducible] def Act.Result : Act → Type
  | .enter a => a.Result
  | .clock => Clock
  | .matching _ => List Message
  | .events _ => Option (List (Nat × Bytes))
  | .durable _ => Option String
  | .logLimit => Nat
  | .flush => Option Nat
  | .acknowledged _ => Unit
  | .send _ => Bool

/-- Do what a routine asks for. `none` is a panic of the hub, or a flush that is not
acknowledged yet. -/
def Hub.attend (r : Reading) (h : Hub) : (a : Act) → Option (a.Result × Hub)
  | .enter a => h.enter a
  | .clock => some (r.clock, h)
  | .matching filter => some (h.retained.matching filter, h)
  | .events start => some (h.disk.map fun d => d.storage.loadEvents start, h)
  | .durable id => some (h.durableClient id, h)
  | .logLimit => some (h.eventLogMax, h)
  | .flush => h.perform r .flush
  | .acknowledged ack => h.perform r (.acknowledged ack)
  | .send reply => h.perform r (.send reply)

abbrev Routine := Program Act Act.Result

def ask (a : Act) : Routine a.Result := Program.perform a

def enter (a : Section) : Routine a.Result := ask (.enter a)

namespace Routine

def writeAll : List (String × Bytes) → Routine Unit
  | [] => pure ()
  | snapshot :: rest => do
      enter (.enqueue (.putInflight snapshot.1 snapshot.2))
      writeAll rest

def retain (topic : String) (payload : Bytes) (qos : QoS) : Routine Unit := do
  enter (.retain ⟨topic, payload, qos, true⟩)
  enter (.enqueue (.putRetained topic payload qos))

def journal (topic : String) (payload : Bytes) (qos : QoS) : Routine Unit := do
  let limit : Nat ← ask .logLimit
  if 0 < limit ∧ ¬ Text.startsWithChar '$' topic then
    let clock : Clock ← ask .clock
    enter (.enqueue (.appendEvent (encodeEvent clock.ts topic qos payload) limit))
  else pure ()

def announce (topic : String) (payload : Bytes) (qos : QoS) : Bool → Routine Unit
  | true => do
      retain topic payload qos
      journal topic payload qos
  | false => journal topic payload qos

def fanOut (topic : String) (payload : Bytes) (msgQos : QoS) : Routine Nat := do
  let targets : List (ClientId × QoS) ← enter (.route topic)
  if targets = [] then pure 0
  else do
    let clock : Clock ← ask .clock
    let delivery : Nat × List (String × Bytes) ←
      enter (.deliver targets topic payload msgQos clock.now)
    writeAll delivery.2
    pure delivery.1

def publish (topic : String) (payload : Bytes) (msgQos : QoS) (retain : Bool) : Routine Nat := do
  announce topic payload msgQos retain
  fanOut topic payload msgQos

def deadLetter (clientId : String) (msg : DeadMsg) (reason : String) : Routine Unit :=
  if isDlqTopic msg.publish.topic then pure ()
  else do
    let clock : Clock ← ask .clock
    enter (.enqueue (.appendDeadLetter (encodeDeadLetter clock.ts clientId msg.publish.topic reason
      msg.attempts msg.publish.qos msg.publish.payload)))
    let _ ← publish (Hub.dlqTopic clientId msg.publish.topic) msg.publish.payload msg.publish.qos
      false
    pure ()

def deadLetterAll (reason : String) : List (String × DeadMsg) → Routine Unit
  | [] => pure ()
  | (clientId, msg) :: rest => do
      deadLetter clientId msg reason
      deadLetterAll reason rest

def purgeIfIdle (id : ClientId) (generation : Nat) : Routine Unit := do
  let dead : List (String × DeadMsg) ← enter (.expire id generation)
  deadLetterAll "session_expired" dead

def runRetries : Routine Unit := do
  let clock : Clock ← ask .clock
  let visit : List (String × DeadMsg) × List (String × Bytes) ← enter (.tick clock.now)
  writeAll visit.2
  deadLetterAll "max_delivery_attempts_exceeded" visit.1

/-- Queue a write for the client of a session that is durable at this moment. -/
def ifDurable (id : ClientId) (op : String → PersistOp) : Routine Unit := do
  let client : Option String ← ask (.durable id)
  match client with
  | some clientId => enter (.enqueue (op clientId))
  | none => pure ()

def subscribe (id : ClientId) (filter : TopicFilter) (qos : QoS) (raw : String) : Routine Unit := do
  enter (.subscribe id filter qos)
  ifDurable id fun clientId => .putSubscription clientId raw qos

def subscribeShared (group : String) (id : ClientId) (filter : TopicFilter) (qos : QoS)
    (raw : String) : Routine Unit := do
  enter (.subscribeShared group id filter qos)
  ifDurable id fun clientId => .putSubscription clientId raw qos

def unsubscribe (id : ClientId) (raw : String) : Routine Bool := do
  let removed : Bool ← enter (.unroute id raw)
  ifDurable id fun clientId => .removeSubscription clientId raw
  pure removed

def deliverRetained (id : ClientId) (filter : TopicFilter) (granted : QoS) : Routine Unit := do
  let messages : List Message ← ask (.matching filter)
  if messages = [] then pure ()
  else do
    let clock : Clock ← ask .clock
    let snapshot : Option (String × Bytes) ←
      enter (.replayRetained id messages granted clock.now)
    writeAll snapshot.toList

/-- The log is read before the sessions are locked. -/
def replay (id : ClientId) (start : Nat) (filter : TopicFilter) : Routine Nat := do
  let events : Option (List (Nat × Bytes)) ← ask (.events start)
  match events with
  | none => pure 0
  | some events => enter (.send id (events.filterMap (Hub.replayPacket filter)))

def acknowledge (id : ClientId) (ack : Ack) : Routine Unit := do
  let snapshot : Option (String × Bytes) ← enter (.acknowledge id ack)
  writeAll snapshot.toList

def connect (clientId : String) (cleanStart : Bool) (expirySecs : Nat) : Routine Connected := do
  let clock : Clock ← ask .clock
  enter (.connect clientId cleanStart expirySecs clock.now)

end Routine

def Call.routine : (c : Call) → Routine c.Result
  | .connect clientId cleanStart expirySecs => Routine.connect clientId cleanStart expirySecs
  | .detach id generation => enter (.detach id generation)
  | .subscribe id filter qos raw => Routine.subscribe id filter qos raw
  | .subscribeShared group id filter qos raw => Routine.subscribeShared group id filter qos raw
  | .unsubscribe id raw => Routine.unsubscribe id raw
  | .deliverRetained id filter granted => Routine.deliverRetained id filter granted
  | .publish topic payload qos retain => Routine.publish topic payload qos retain
  | .replay id start filter => Routine.replay id start filter
  | .acknowledge id ack => Routine.acknowledge id ack
  | .inboundQos2Seen id pid => enter (.qos2Seen id pid)
  | .inboundQos2Release id pid => enter (.qos2Release id pid)
  | .flush => ask .flush
  | .acknowledged ack => ask (.acknowledged ack)
  | .send reply => ask (.send reply)

/-! ## A routine that is not interrupted -/

namespace Routine

variable (r : Reading) (h : Hub)

/-- What the routine returns and leaves behind when nothing happens in between. -/
def alone {A : Type} (routine : Routine A) : Option (A × Hub) := routine.exec (Hub.attend r) h

theorem alone_bind {A B : Type} (routine : Routine A) (next : A → Routine B) :
    alone r h (routine >>= next) = (alone r h routine).bind fun out => alone r out.2 (next out.1) :=
  Program.exec_bind _ routine next h

theorem alone_ask (a : Act) : alone r h (ask a) = h.attend r a := Program.exec_perform _ a h

theorem alone_enter (a : Section) : alone r h (enter a) = h.enter a := alone_ask r h (.enter a)

theorem alone_writeAll (snapshots : List (String × Bytes)) :
    alone r h (writeAll snapshots) = some ((), h.writeAll snapshots) := by
  induction snapshots generalizing h with
  | nil => rfl
  | cons snapshot rest ih =>
      rw [writeAll, alone_bind, alone_enter]
      exact ih (h.writeInflight snapshot)

theorem alone_journal (topic : String) (payload : Bytes) (qos : QoS) :
    alone r h (journal topic payload qos) = some ((), h.journal topic payload qos r.clock.ts) := by
  rw [journal, alone_bind, alone_ask]
  simp only [Hub.attend, Option.bind_some, Hub.journal]
  split
  · rw [alone_bind, alone_ask]
    rfl
  · rfl

theorem alone_announce (topic : String) (payload : Bytes) (qos : QoS) (retain : Bool) :
    alone r h (announce topic payload qos retain) =
      some ((), h.announce topic payload qos retain r.clock.ts) := by
  cases retain with
  | false => exact alone_journal r h topic payload qos
  | true =>
      rw [announce, alone_bind]
      exact alone_journal r (h.retain topic payload qos) topic payload qos

/-- Routing, delivery and snapshots, with nothing in between, are the hub's own function.
-/
theorem alone_fanOut (topic : String) (payload : Bytes) (qos : QoS) :
    alone r h (fanOut topic payload qos) = h.fanOut topic payload qos r.clock.now := by
  rw [fanOut, alone_bind, alone_enter]
  simp only [Hub.enter, Option.bind_some, Hub.fanOut]
  split
  · rfl
  · rw [alone_bind, alone_ask]
    simp only [Hub.attend, Option.bind_some]
    rw [alone_bind, alone_enter, Hub.enter]
    cases (h.routeTopic topic).2.deliverAll (h.routeTopic topic).1 topic payload qos r.clock.now with
    | none => rfl
    | some f =>
        simp only [Option.map_some, Option.bind_some]
        rw [alone_bind, alone_writeAll]
        rfl

/-- A publish that nothing interrupts is the hub's own publish. -/
theorem alone_publish (topic : String) (payload : Bytes) (qos : QoS) (retain : Bool) :
    alone r h (publish topic payload qos retain) = h.publish topic payload qos retain r.clock := by
  rw [publish, alone_bind, alone_announce, Option.bind_some, Hub.publish]
  exact alone_fanOut r _ topic payload qos

theorem alone_deadLetter (clientId : String) (msg : DeadMsg) (reason : String) :
    alone r h (deadLetter clientId msg reason) =
      (h.deadLetter clientId msg reason r.clock).map fun h' => ((), h') := by
  unfold deadLetter Hub.deadLetter
  split
  · rfl
  · rw [alone_bind, alone_ask]
    simp only [Hub.attend, Option.bind_some]
    rw [alone_bind, alone_enter]
    simp only [Hub.enter, Option.bind_some]
    rw [alone_bind, alone_publish, Option.map_map]
    exact Option.map_eq_bind.symm

theorem alone_deadLetterAll (reason : String) (dead : List (String × DeadMsg)) :
    alone r h (deadLetterAll reason dead) =
      (h.deadLetterAll reason dead fun _ => r.clock).map fun h' => ((), h') := by
  induction dead generalizing h with
  | nil => rfl
  | cons entry rest ih =>
      obtain ⟨clientId, msg⟩ := entry
      rw [deadLetterAll, alone_bind, alone_deadLetter, Hub.deadLetterAll]
      cases h.deadLetter clientId msg reason r.clock with
      | none => rfl
      | some h' => exact ih h'

theorem alone_purgeIfIdle (id : ClientId) (generation : Nat) :
    alone r h (purgeIfIdle id generation) =
      (h.purgeIfIdle id generation fun _ => r.clock).map fun h' => ((), h') := by
  rw [purgeIfIdle, alone_bind, alone_enter]
  exact alone_deadLetterAll r _ _ _

theorem alone_runRetries :
    alone r h runRetries = (h.runRetries fun _ => r.clock).map fun h' => ((), h') := by
  rw [runRetries, alone_bind, alone_ask]
  simp only [Hub.attend, Option.bind_some]
  rw [alone_bind, alone_enter]
  simp only [Hub.enter, Option.bind_some]
  rw [alone_bind, alone_writeAll]
  exact alone_deadLetterAll r _ _ _

theorem alone_ifDurable (id : ClientId) (op : String → PersistOp) :
    alone r h (ifDurable id op) =
      some ((), match h.durableClient id with
        | some clientId => h.enqueue (op clientId)
        | none => h) := by
  rw [ifDurable, alone_bind, alone_ask]
  simp only [Hub.attend, Option.bind_some]
  cases h.durableClient id <;> rfl

theorem alone_deliverRetained (id : ClientId) (filter : TopicFilter) (granted : QoS) :
    alone r h (deliverRetained id filter granted) =
      (h.deliverRetained id filter granted r.clock.now).map fun h' => ((), h') := by
  rw [deliverRetained, alone_bind, alone_ask]
  simp only [Hub.attend, Option.bind_some, Hub.deliverRetained]
  split
  · rfl
  · rw [alone_bind, alone_ask]
    simp only [Hub.attend, Option.bind_some]
    rw [alone_bind, alone_enter, Hub.enter]
    cases h.replayRetained id (h.retained.matching filter) granted r.clock.now with
    | none => rfl
    | some out => exact alone_writeAll r out.2 out.1.toList

/-- A replay reads the log of the hub it is asked on. -/
theorem alone_replay (id : ClientId) (start : Nat) (filter : TopicFilter) :
    alone r h (replay id start filter) = some (h.replay id start filter) := by
  rw [replay, alone_bind, alone_ask]
  simp only [Hub.attend, Option.bind_some, Hub.replay]
  cases h.disk with
  | none => rfl
  | some d =>
      simp only [Option.map_some]
      rw [alone_enter, Hub.enter, Hub.sendAll]
      cases h.sessions.byId.lookup id <;> rfl

theorem alone_connect (clientId : String) (cleanStart : Bool) (expirySecs : Nat) :
    alone r h (connect clientId cleanStart expirySecs) =
      h.connect clientId cleanStart expirySecs r.clock.now := by
  rw [connect, alone_bind, alone_ask]
  exact alone_enter r h _

theorem alone_subscribe (id : ClientId) (filter : TopicFilter) (qos : QoS) (raw : String) :
    alone r h (subscribe id filter qos raw) = some ((), h.subscribe id filter qos raw) := by
  rw [subscribe, alone_bind, alone_enter]
  exact alone_ifDurable r _ id _

theorem alone_subscribeShared (group : String) (id : ClientId) (filter : TopicFilter) (qos : QoS)
    (raw : String) :
    alone r h (subscribeShared group id filter qos raw) =
      some ((), h.subscribeShared group id filter qos raw) := by
  rw [subscribeShared, alone_bind, alone_enter]
  exact alone_ifDurable r _ id _

theorem alone_unsubscribe (id : ClientId) (raw : String) :
    alone r h (unsubscribe id raw) = some (h.unsubscribe id raw) := by
  rw [unsubscribe, alone_bind, alone_enter]
  simp only [Hub.enter, Option.bind_some]
  rw [alone_bind, alone_ifDurable]
  rfl

theorem alone_acknowledge (id : ClientId) (ack : Ack) :
    alone r h (acknowledge id ack) = some ((), h.onAck id ack.apply) := by
  rw [acknowledge, alone_bind, alone_enter]
  exact alone_writeAll r _ _

/-- The routine of a call, run alone, is the call as the hub performs it. -/
theorem alone_routine (c : Call) : alone r h c.routine = h.perform r c := by
  cases c with
  | connect clientId cleanStart expirySecs => exact alone_connect r h clientId cleanStart expirySecs
  | subscribe id filter qos raw => exact alone_subscribe r h id filter qos raw
  | subscribeShared group id filter qos raw =>
      exact alone_subscribeShared r h group id filter qos raw
  | unsubscribe id raw => exact alone_unsubscribe r h id raw
  | deliverRetained id filter granted => exact alone_deliverRetained r h id filter granted
  | publish topic payload qos retain => exact alone_publish r h topic payload qos retain
  | replay id start filter => exact alone_replay r h id start filter
  | acknowledge id ack => exact alone_acknowledge r h id ack
  | detach id generation => exact alone_enter r h _
  | inboundQos2Seen id pid => exact alone_enter r h _
  | inboundQos2Release id pid => exact alone_enter r h _
  | flush => exact alone_ask r h _
  | acknowledged ack => exact alone_ask r h _
  | send reply => exact alone_ask r h _

end Routine

end Relay
