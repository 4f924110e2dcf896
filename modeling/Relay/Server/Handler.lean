import Relay.Foundation.Program
import Relay.Server.Broker

/-! # The connection handler

The handler of one connection as a program of calls to the hub and writes to the
socket. Its loop takes one input at a time, a packet of the client or an entry of
the delivery channel, and keeps its variables from one input to the next; after
the loop the Will is published and the session detached. Other connections, the
timers and the worker act between any two of its calls. Token verification is a
parameter; logging is left out.
-/

namespace Relay

inductive AckReason where
  | success
  | notAuthorized
deriving DecidableEq

/-- What the handler writes to the socket. -/
inductive Reply where
  | connectAck (sessionPresent : Bool) (reason : AckReason)
  | subscribeAck (packetId : Nat) (status : List SubscribeStatus)
  | publishAck (packetId : Nat) (reason : AckReason)
  | publishReceived (packetId : Nat) (reason : AckReason)
  | publishComplete (packetId : Nat)
  | unsubscribeAck (packetId : Nat) (existed : List Bool)
  | pingResponse
  | forward (packet : Packet)
deriving DecidableEq

/-- A packet from the client. The handler ignores kinds that only a broker
sends, and AUTH. -/
inductive ClientPacket where
  | connect (p : ConnectPacket) (password : Option Bytes)
  | subscribe (packetId : Nat) (filters : List (String × QoS))
  | publish (p : Publish)
  | publishAck (packetId : Nat)
  | publishReceived (packetId : Nat)
  | publishComplete (packetId : Nat)
  | publishRelease (packetId : Nat)
  | unsubscribe (packetId : Nat) (filters : List String)
  | pingRequest
  | disconnect (normal : Bool)
  | other

/-- What the handler loop waits for: a packet; the end of the stream, a decoding
error or the connect timeout; an entry of the delivery channel, or its end. -/
inductive Input where
  | packet (p : ClientPacket)
  | ended
  | outgoing (packet : Option Packet)

/-- The channel is there to be read once a CONNECT was accepted. -/
def Input.ready (conn : Conn) : Input → Bool
  | .outgoing _ => conn.sessionId.isSome
  | _ => true

inductive Call where
  | connect (clientId : String) (cleanStart : Bool) (expirySecs : Nat)
  | detach (id : ClientId) (generation : Nat)
  | subscribe (id : ClientId) (filter : TopicFilter) (qos : QoS) (raw : String)
  | subscribeShared (group : String) (id : ClientId) (filter : TopicFilter) (qos : QoS)
      (raw : String)
  | unsubscribe (id : ClientId) (raw : String)
  | deliverRetained (id : ClientId) (filter : TopicFilter) (granted : QoS)
  | publish (topic : String) (payload : Bytes) (qos : QoS) (retain : Bool)
  | replay (id : ClientId) (start : Nat) (filter : TopicFilter)
  | acknowledge (id : ClientId) (ack : Ack)
  | inboundQos2Seen (id : ClientId) (pid : Nat)
  | inboundQos2Release (id : ClientId) (pid : Nat)
  | flush
  | acknowledged (ack : Nat)
  | send (reply : Reply)

/-- What a call answers. A flush answers with the channel on which the worker
will acknowledge it, a write with whether the socket took it. -/
def Call.Result : Call → Type
  | .connect .. => Connected
  | .unsubscribe .. => Bool
  | .publish .. => Nat
  | .replay .. => Nat
  | .inboundQos2Seen .. => Bool
  | .flush => Option Nat
  | .send _ => Bool
  | _ => Unit

abbrev Handler := Program Call Call.Result

def call (c : Call) : Handler c.Result := Program.perform c

/-- After an input the loop goes on or is left; leaving it by a normal DISCONNECT
drops the Will. -/
inductive Flow where
  | next
  | leave (cleanDisconnect : Bool)
deriving DecidableEq

structure HandlerConfig where
  authenticate : Option Bytes → Option Acl
  limit : Nat

def parseReplay (rest : String) : Option (Nat × TopicFilter) := do
  let (start, filter) ← Text.splitOnce '/' rest
  let start ← Text.parseNat u64Bound start
  let filter ← TopicFilter.parse filter
  some (start, filter)

namespace Conn

def reply (conn : Conn) (r : Reply) : Handler (Flow × Conn) := do
  let written : Bool ← call (.send r)
  pure (if written then .next else .leave false, conn)

def flush : Handler Unit := do
  let channel : Option Nat ← call .flush
  match channel with
  | some ack => call (.acknowledged ack)
  | none => pure ()

def refuse (conn : Conn) : Handler (Flow × Conn) := do
  let _ ← call (.send (.connectAck false .notAuthorized))
  pure (.leave false, conn)

def onConnect (cfg : HandlerConfig) (conn : Conn) (packet : ConnectPacket)
    (password : Option Bytes) : Handler (Flow × Conn) :=
  match cfg.authenticate password with
  | none => conn.refuse
  | some acl =>
      let authenticated : Conn := { conn with access := acl }
      if packet.will.all fun w => acl.canPublish w.topic then do
        let (clientId, cleanStart) := packet.session conn.peer
        let connected : Connected ← call (.connect clientId cleanStart packet.expirySecs)
        let attached : Conn :=
          { authenticated with
            sessionId := some connected.id
            generation := connected.generation
            will := packet.will }
        attached.reply (.connectAck connected.sessionPresent .success)
      else authenticated.refuse

/-- One filter of a SUBSCRIBE: its status, and what to deliver for it once the
packet is acknowledged. -/
def onFilter (cfg : HandlerConfig) (conn : Conn) (id : ClientId) (raw : String) (qos : QoS) :
    Handler (SubscribeStatus × Option (TopicFilter × QoS) × Conn) :=
  let granted := min qos maxQos
  let active : Conn := { conn with activeFilters := insert raw conn.activeFilters }
  match conn.admits cfg.limit raw with
  | some refused => pure (refused, none, conn)
  | none =>
      match SharedSubscription.parse raw with
      | some shared => do
          call (.subscribeShared shared.group id shared.filter granted raw)
          pure (.granted granted, none, active)
      | none =>
          match TopicFilter.parse raw with
          | some filter => do
              call (.subscribe id filter granted raw)
              pure (.granted granted, some (filter, granted), active)
          | none => pure (.topicFilterInvalid, none, conn)

def onFilters (cfg : HandlerConfig) (id : ClientId) :
    List (String × QoS) → Conn → Handler (List SubscribeStatus × List (TopicFilter × QoS) × Conn)
  | [], conn => pure ([], [], conn)
  | (raw, qos) :: rest, conn => do
      let (status, job, conn) ← onFilter cfg conn id raw qos
      let (statuses, jobs, conn) ← onFilters cfg id rest conn
      pure (status :: statuses, job.toList ++ jobs, conn)

def deliverJobs (id : ClientId) : List (TopicFilter × QoS) → Handler Unit
  | [] => pure ()
  | (filter, granted) :: rest => do
      call (.deliverRetained id filter granted)
      deliverJobs id rest

def onSubscribe (cfg : HandlerConfig) (conn : Conn) (packetId : Nat)
    (filters : List (String × QoS)) : Handler (Flow × Conn) :=
  match conn.sessionId with
  | none => pure (.leave false, conn)
  | some id => do
      let (status, jobs, conn) ← onFilters cfg id filters conn
      let written : Bool ← call (.send (.subscribeAck packetId status))
      if written then
        deliverJobs id jobs
        pure (.next, conn)
      else pure (.leave false, conn)

/-- Acknowledge a PUBLISH that is not routed; nothing to do at QoS 0. -/
def acknowledge (conn : Conn) (p : Publish) (reason : AckReason) : Handler (Flow × Conn) :=
  match p.qos, p.packetId with
  | .atLeastOnce, some pid => conn.reply (.publishAck pid reason)
  | .exactlyOnce, some pid => conn.reply (.publishReceived pid reason)
  | _, _ => pure (.next, conn)

/-- A replay request: allowed if the filter is one the client may subscribe to.
It is acknowledged in any case. -/
def onReplay (conn : Conn) (id : ClientId) (p : Publish) (rest : String) :
    Handler (Flow × Conn) := do
  match parseReplay rest with
  | some (start, filter) =>
      if conn.access.canSubscribe filter.asStr then
        flush
        let _ ← call (.replay id start filter)
  | none => pure ()
  conn.acknowledge p .success

def publishCall (p : Publish) : Call := .publish p.topic p.payload p.qos p.retain

/-- Route an authorised PUBLISH, at QoS 2 only the first time it is seen. -/
def onAuthorized (conn : Conn) (id : ClientId) (p : Publish) : Handler (Flow × Conn) :=
  match p.qos with
  | .atMostOnce => do
      let _ ← call (publishCall p)
      pure (.next, conn)
  | .atLeastOnce =>
      match p.packetId with
      | none => pure (.leave false, conn)
      | some pid => do
          let _ ← call (publishCall p)
          conn.reply (.publishAck pid .success)
  | .exactlyOnce =>
      match p.packetId with
      | none => pure (.leave false, conn)
      | some pid => do
          let fresh : Bool ← call (.inboundQos2Seen id pid)
          if fresh then
            let _ ← call (publishCall p)
          conn.reply (.publishReceived pid .success)

def onPublish (conn : Conn) (p : Publish) : Handler (Flow × Conn) :=
  match conn.sessionId with
  | none => pure (.leave false, conn)
  | some id =>
      match Text.strip "$replay/" p.topic with
      | some rest => conn.onReplay id p rest
      | none =>
          if conn.access.canPublish p.topic then conn.onAuthorized id p
          else conn.acknowledge p .notAuthorized

/-- An acknowledgement of an outbound message; without a session it is ignored. -/
def onAck (conn : Conn) (ack : Ack) : Handler (Flow × Conn) := do
  match conn.sessionId with
  | some id => call (.acknowledge id ack)
  | none => pure ()
  pure (.next, conn)

/-- PUBREL is answered with or without a session. -/
def onRelease (conn : Conn) (packetId : Nat) : Handler (Flow × Conn) := do
  match conn.sessionId with
  | some id => call (.inboundQos2Release id packetId)
  | none => pure ()
  conn.reply (.publishComplete packetId)

def unsubscribeAll (id : ClientId) : List String → Conn → Handler (List Bool × Conn)
  | [], conn => pure ([], conn)
  | raw :: rest, conn => do
      let existed : Bool ← call (.unsubscribe id raw)
      let removed : Conn := { conn with activeFilters := conn.activeFilters.erase raw }
      let (flags, conn) ← unsubscribeAll id rest removed
      pure (existed :: flags, conn)

def onUnsubscribe (conn : Conn) (packetId : Nat) (filters : List String) :
    Handler (Flow × Conn) :=
  match conn.sessionId with
  | none => pure (.leave false, conn)
  | some id => do
      let (existed, conn) ← unsubscribeAll id filters conn
      conn.reply (.unsubscribeAck packetId existed)

def onPing (conn : Conn) : Handler (Flow × Conn) := do
  flush
  conn.reply .pingResponse

def onPacket (cfg : HandlerConfig) (conn : Conn) : ClientPacket → Handler (Flow × Conn)
  | .connect packet password => conn.onConnect cfg packet password
  | .subscribe packetId filters => conn.onSubscribe cfg packetId filters
  | .publish p => conn.onPublish p
  | .publishAck pid => conn.onAck (.puback pid)
  | .publishReceived pid => conn.onAck (.pubrec pid)
  | .publishComplete pid => conn.onAck (.pubcomp pid)
  | .publishRelease pid => conn.onRelease pid
  | .unsubscribe packetId filters => conn.onUnsubscribe packetId filters
  | .pingRequest => conn.onPing
  | .disconnect normal => pure (.leave normal, conn)
  | .other => pure (.next, conn)

/-- One turn of the handler loop. -/
def onInput (cfg : HandlerConfig) (conn : Conn) : Input → Handler (Flow × Conn)
  | .packet p => conn.onPacket cfg p
  | .ended => pure (.leave false, conn)
  | .outgoing (some packet) => conn.reply (.forward packet)
  | .outgoing none => pure (.leave false, conn)

/-- After the loop: the Will, unless the client took leave, then the detach. -/
def teardown (conn : Conn) (cleanDisconnect : Bool) : Handler Unit := do
  match (if cleanDisconnect then none else conn.will) with
  | some w =>
      let _ ← call (.publish w.topic w.payload w.qos w.retain)
  | none => pure ()
  match conn.sessionId with
  | some id => call (.detach id conn.generation)
  | none => pure ()

/-! ## Rules for the building blocks -/

section Rules

variable {conn : Conn} {allowed : Call → Prop} {post : Flow × Conn → Prop}

/-- A reply is one call and leaves the variables alone. -/
theorem meets_reply {r : Reply} (hsend : allowed (.send r))
    (hpost : ∀ flow, post (flow, conn)) : (conn.reply r).Meets allowed post :=
  ⟨hsend, fun _ => hpost _⟩

theorem meets_refuse
    (hsend : allowed (.send (.connectAck false .notAuthorized))) (hpost : post (.leave false, conn)) :
    conn.refuse.Meets allowed post :=
  ⟨hsend, fun _ => hpost⟩

theorem meets_flush (hflush : allowed .flush) (hack : ∀ ack, allowed (.acknowledged ack)) :
    flush.Meets allowed fun _ => True := by
  refine ⟨hflush, fun channel => ?_⟩
  cases channel with
  | none => trivial
  | some ack => exact ⟨hack ack, fun _ => trivial⟩

/-- An acknowledgement is a PUBACK or a PUBREC, by the level of the packet. -/
theorem meets_acknowledge {p : Publish} {reason : AckReason}
    (hpuback : ∀ pid, allowed (.send (.publishAck pid reason)))
    (hpubrec : ∀ pid, allowed (.send (.publishReceived pid reason)))
    (hpost : ∀ flow, post (flow, conn)) : (conn.acknowledge p reason).Meets allowed post := by
  unfold acknowledge
  split
  next pid _ _ => exact meets_reply (hpuback pid) hpost
  next pid _ _ => exact meets_reply (hpubrec pid) hpost
  next => exact hpost _

end Rules

end Conn

/-! ## Running a handler -/

/-- What a call reads from outside: the clocks, a fresh channel for a flush, and
whether the socket takes a write. -/
structure Reading where
  clock : Clock
  ack : Nat
  writable : Bool

/-- Perform a call. `none` is a panic of the hub, or a flush that is not
acknowledged yet. -/
def Hub.perform (h : Hub) (r : Reading) : (c : Call) → Option (c.Result × Hub)
  | .connect clientId cleanStart expirySecs => h.connect clientId cleanStart expirySecs r.clock.now
  | .detach id generation => some ((), h.detach id generation)
  | .subscribe id filter qos raw => some ((), h.subscribe id filter qos raw)
  | .subscribeShared group id filter qos raw =>
      some ((), h.subscribeShared group id filter qos raw)
  | .unsubscribe id raw => some (h.unsubscribe id raw)
  | .deliverRetained id filter granted =>
      (h.deliverRetained id filter granted r.clock.now).map fun h' => ((), h')
  | .publish topic payload qos retain => h.publish topic payload qos retain r.clock
  | .replay id start filter => some (h.replay id start filter)
  | .acknowledge id ack => some ((), h.onAck id ack.apply)
  | .inboundQos2Seen id pid => some (h.inboundQos2Seen id pid)
  | .inboundQos2Release id pid => some ((), h.inboundQos2Release id pid)
  | .flush =>
      match h.disk with
      | some _ => some (some r.ack, h.flush r.ack)
      | none => some (none, h)
  | .acknowledged ack => if ∃ d ∈ h.disk, ack ∈ d.acks then some ((), h) else none
  | .send _ => some (r.writable, h)

/-- Where a handler is: waiting for an input, in the middle of one, or past its
loop. The variables are those before the input in hand. -/
inductive Phase where
  | waiting (conn : Conn)
  | busy (conn : Conn) (input : Input) (rest : Handler (Flow × Conn))
  | ending (conn : Conn) (rest : Handler Unit)

def Phase.settle (conn : Conn) (input : Input) : Handler (Flow × Conn) → Phase
  | .call c next => .busy conn input (.call c next)
  | .done (.next, conn') => .waiting conn'
  | .done (.leave clean, conn') => .ending conn' (conn'.teardown clean)

structure Live where
  hub : Hub
  phase : Phase

inductive LiveStep where
  | receive (input : Input)
  | own (r : Reading)
  | env (a : Section)

namespace Live

def start (hub : Hub) (peer : String) : Live := ⟨hub, .waiting (Conn.start peer)⟩

/-- The handler takes an input or performs its next call, or anything else in the
broker performs a section. -/
def step (cfg : HandlerConfig) (l : Live) : LiveStep → Option Live
  | .receive input =>
      match l.phase with
      | .waiting conn =>
          if input.ready conn then
            some { l with phase := .settle conn input (conn.onInput cfg input) }
          else none
      | _ => none
  | .own r =>
      match l.phase with
      | .busy conn input (.call c next) =>
          (l.hub.perform r c).map fun out => ⟨out.2, .settle conn input (next out.1)⟩
      | .ending conn (.call c next) =>
          (l.hub.perform r c).map fun out => ⟨out.2, .ending conn (next out.1)⟩
      | _ => none
  | .env a => (l.hub.act a).map fun h => { l with hub := h }

end Live

end Relay
