import Relay.Core.Message
import Relay.Foundation.Text

/-! # Sessions

Per-client state that outlives the connection: the delivery channel while
online, the packet-id counter, the outbound in-flight queue and the inbound
QoS 2 dedup set. Instants and durations are natural numbers of nanoseconds; the
delivery channel is the list of packets handed to it since it was attached.
-/

namespace Relay

structure RetryConfig where
  maxAttempts : Nat
  base : Nat
  cap : Nat
deriving DecidableEq, Repr

def durationMax : Nat := (2 ^ 64 - 1) * 1000000000 + 999999999

/-- Back-off before the given delivery attempt, counted from 1. -/
def backoff (cfg : RetryConfig) (attempt : Nat) : Nat :=
  let shift := min (attempt - 1) 20
  min (min (cfg.base * 2 ^ shift) durationMax) cfg.cap

/-- The dead-letter namespace; its messages are never dead-lettered again. -/
def isDlqTopic (topic : String) : Bool := Text.startsWith "$dlq/" topic

/-- The application properties of a PUBLISH. A topic alias and subscription
identifiers belong to one connection and are left out. -/
structure PublishProperties where
  isUtf8Payload : Bool
  messageExpiryInterval : Option Nat
  contentType : Option String
  responseTopic : Option String
  correlationData : Option Bytes
  userProperties : List (String × String)
deriving DecidableEq, Repr

def PublishProperties.default : PublishProperties :=
  { isUtf8Payload := false
    messageExpiryInterval := none
    contentType := none
    responseTopic := none
    correlationData := none
    userProperties := [] }

structure Publish where
  dup : Bool
  retain : Bool
  qos : QoS
  topic : String
  packetId : Option Nat
  payload : Bytes
  properties : PublishProperties
deriving DecidableEq, Repr

/-- The packets the hub puts on a delivery channel. -/
inductive Packet where
  | publish (p : Publish)
  | publishRelease (packetId : Nat)
deriving DecidableEq, Repr

def pubrel (packetId : Nat) : Packet := .publishRelease packetId

def makePublish (topic : String) (payload : Bytes) (qos : QoS) (packetId : Option Nat)
    (retain dup : Bool) : Publish :=
  { dup, retain, qos, topic, packetId, payload, properties := .default }

/-- One outbound message awaiting acknowledgement. -/
inductive Inflight where
  | qos1 (p : Publish)
  | qos2AwaitRec (p : Publish)
  | qos2AwaitComp (packetId : Nat)
deriving DecidableEq, Repr

structure InflightEntry where
  state : Inflight
  attempts : Nat
  nextDue : Nat
deriving DecidableEq, Repr

structure DeadMsg where
  publish : Publish
  attempts : Nat
deriving DecidableEq, Repr

structure Session where
  clientId : String
  tx : Option (List Packet)
  nextId : Nat
  inflight : List InflightEntry
  incomingQos2 : Finset Nat
  expirySecs : Nat
  generation : Nat
deriving DecidableEq

def u16Bound : Nat := 2 ^ 16

def u32Bound : Nat := 2 ^ 32

namespace Inflight

def packetId : Inflight → Option Nat
  | qos1 p => p.packetId
  | qos2AwaitRec p => p.packetId
  | qos2AwaitComp pid => some pid

/-- What a redelivery sends: the PUBLISH as a duplicate, or the PUBREL. -/
def redelivery : Inflight → Packet
  | qos1 p => .publish { p with dup := true }
  | qos2AwaitRec p => .publish { p with dup := true }
  | qos2AwaitComp pid => pubrel pid

/-- The PUBLISH that has not been confirmed at all, if the message has one. -/
def undelivered : Inflight → Option Publish
  | qos1 p => some p
  | qos2AwaitRec p => some p
  | qos2AwaitComp _ => none

end Inflight

namespace Session

def new (clientId : String) (tx : Option (List Packet)) (expirySecs generation : Nat) : Session :=
  { clientId, tx, nextId := 1, inflight := [], incomingQos2 := ∅, expirySecs, generation }

/-- Hand out the next packet id; the counter skips 0. `none` is the source's
`expect` on a counter that is 0. -/
def allocateId (s : Session) : Option (Nat × Session) :=
  let bumped := (s.nextId + 1) % u16Bound
  let s' := { s with nextId := if bumped = 0 then 1 else bumped }
  if s.nextId = 0 then none else some (s.nextId, s')

def send (s : Session) (packet : Packet) : Session :=
  { s with tx := s.tx.map (· ++ [packet]) }

def enqueueInflight (s : Session) (state : Inflight) (p : Publish) (due : Nat) : Session :=
  let queued : Session := { s with inflight := s.inflight ++ [⟨state, 1, due⟩] }
  queued.send (.publish p)

/-- Deliver at an effective QoS. QoS 0 is dropped while offline; QoS 1/2 is
recorded as in-flight and transmitted when online. -/
def deliver (s : Session) (topic : String) (payload : Bytes) (qos : QoS) (retain : Bool)
    (now : Nat) (cfg : RetryConfig) : Option Session :=
  match qos with
  | .atMostOnce =>
      some (s.send (.publish (makePublish topic payload .atMostOnce none retain false)))
  | .atLeastOnce => do
      let (pid, s) ← s.allocateId
      let p := makePublish topic payload .atLeastOnce (some pid) retain false
      some (s.enqueueInflight (.qos1 p) p (now + backoff cfg 1))
  | .exactlyOnce => do
      let (pid, s) ← s.allocateId
      let p := makePublish topic payload .exactlyOnce (some pid) retain false
      some (s.enqueueInflight (.qos2AwaitRec p) p (now + backoff cfg 1))

/-- Resend the whole queue after a reconnect and re-arm every retry clock. -/
def retransmit (s : Session) (now : Nat) (cfg : RetryConfig) : Session :=
  { s with
    inflight := s.inflight.map fun e => { e with nextDue := now + backoff cfg (max e.attempts 1) }
    tx := s.tx.map (· ++ s.inflight.map fun e => e.state.redelivery) }

def onPuback (s : Session) (pid : Nat) : Session :=
  { s with inflight := s.inflight.filter fun e =>
      match e.state with
      | .qos1 p => p.packetId ≠ some pid
      | _ => true }

/-- Move the first PUBLISH awaiting this PUBREC to awaiting PUBCOMP. -/
def awaitComp (pid : Nat) : List InflightEntry → Option (List InflightEntry)
  | [] => none
  | e :: rest =>
      match e.state with
      | .qos2AwaitRec p =>
          if p.packetId = some pid then some ({ e with state := .qos2AwaitComp pid } :: rest)
          else (awaitComp pid rest).map (e :: ·)
      | _ => (awaitComp pid rest).map (e :: ·)

/-- PUBREC; an unknown non-zero id is still answered with a PUBREL. -/
def onPubrec (s : Session) (pid : Nat) : Session :=
  match awaitComp pid s.inflight with
  | some inflight => send { s with inflight := inflight } (pubrel pid)
  | none => if pid = 0 then s else s.send (pubrel pid)

def onPubcomp (s : Session) (pid : Nat) : Session :=
  { s with inflight := s.inflight.filter fun e => e.state ≠ .qos2AwaitComp pid }

/-- A PUBREC changes the queue and answers on the channel, nothing else. -/
theorem exists_onPubrec (s : Session) (pid : Nat) :
    ∃ queue packets,
      s.onPubrec pid = { s with inflight := queue, tx := s.tx.map (· ++ packets) } := by
  unfold onPubrec
  split
  next queue _ => exact ⟨queue, [pubrel pid], rfl⟩
  next =>
    split
    · exact ⟨s.inflight, [], by simp⟩
    · exact ⟨s.inflight, [pubrel pid], rfl⟩

end Session

/-! ## The retry loop -/

namespace InflightEntry

/-- Out of attempts, and neither past PUBREC nor in the dead-letter namespace. -/
def deadNow (e : InflightEntry) (cfg : RetryConfig) : Option DeadMsg :=
  e.state.undelivered.bind fun p =>
    if cfg.maxAttempts ≤ e.attempts ∧ ¬ isDlqTopic p.topic then some ⟨p, e.attempts⟩ else none

def retried (e : InflightEntry) (now : Nat) (cfg : RetryConfig) : InflightEntry :=
  let attempts := (e.attempts + 1) % u32Bound
  { e with attempts := attempts, nextDue := now + backoff cfg attempts }

end InflightEntry

/-- Locals of the loop in `tick_retries`. -/
structure TickState where
  inflight : List InflightEntry
  index : Nat
  dead : List DeadMsg
  toSend : List Packet
  changed : Bool

namespace TickState

/-- The loop: an entry that is removed shifts the next one into its slot, so the
index stays. The fuel is the number of entries still ahead. -/
def loop (now : Nat) (cfg : RetryConfig) : Nat → TickState → TickState
  | 0, st => st
  | fuel + 1, st =>
      match st.inflight[st.index]? with
      | none => st
      | some e =>
          if now < e.nextDue then loop now cfg fuel { st with index := st.index + 1 }
          else
            match e.deadNow cfg with
            | some msg =>
                loop now cfg fuel { st with
                  inflight := st.inflight.eraseIdx st.index
                  dead := st.dead ++ [msg]
                  changed := true }
            | none =>
                loop now cfg fuel { st with
                  inflight := st.inflight.set st.index (e.retried now cfg)
                  index := st.index + 1
                  toSend := st.toSend ++ [e.state.redelivery]
                  changed := true }

end TickState

namespace Session

/-- Redelivery of an online session: resend what is due, remove what is out of
attempts. Returns the dead messages and whether the queue changed. -/
def tickRetries (s : Session) (now : Nat) (cfg : RetryConfig) : Session × List DeadMsg × Bool :=
  let st := TickState.loop now cfg s.inflight.length ⟨s.inflight, 0, [], [], false⟩
  ({ s with inflight := st.inflight, tx := s.tx.map (· ++ st.toSend) }, st.dead, st.changed)

/-- Remove every message still awaiting its first confirmation, for
dead-lettering when the session expires. -/
def drainUndelivered (s : Session) : Session × List DeadMsg :=
  let dead (e : InflightEntry) : Option DeadMsg :=
    e.state.undelivered.bind fun p =>
      if isDlqTopic p.topic then none else some ⟨p, e.attempts⟩
  ({ s with inflight := s.inflight.filter fun e => (dead e).isNone }, s.inflight.filterMap dead)

/-! ## What one delivery does -/

def bumpId (id : Nat) : Nat := if (id + 1) % u16Bound = 0 then 1 else (id + 1) % u16Bound

/-- The PUBLISH a delivery makes: QoS 0 carries no packet id. -/
def publishFor (s : Session) (topic : String) (payload : Bytes) (qos : QoS) (retain : Bool) :
    Publish :=
  makePublish topic payload qos (if qos = .atMostOnce then none else some s.nextId) retain false

def entriesFor (s : Session) (topic : String) (payload : Bytes) (qos : QoS) (retain : Bool)
    (due : Nat) : List InflightEntry :=
  match qos with
  | .atMostOnce => []
  | .atLeastOnce => [⟨.qos1 (s.publishFor topic payload qos retain), 1, due⟩]
  | .exactlyOnce => [⟨.qos2AwaitRec (s.publishFor topic payload qos retain), 1, due⟩]

/-- The session after a delivery that did not panic. -/
def received (s : Session) (topic : String) (payload : Bytes) (qos : QoS) (retain : Bool)
    (now : Nat) (cfg : RetryConfig) : Session :=
  { s with
    nextId := if qos = .atMostOnce then s.nextId else bumpId s.nextId
    inflight := s.inflight ++ s.entriesFor topic payload qos retain (now + backoff cfg 1)
    tx := s.tx.map (· ++ [.publish (s.publishFor topic payload qos retain)]) }

/-- A delivery panics exactly when it needs a packet id and the counter is 0. -/
theorem deliver_eq (s : Session) (topic : String) (payload : Bytes) (qos : QoS) (retain : Bool)
    (now : Nat) (cfg : RetryConfig) :
    s.deliver topic payload qos retain now cfg =
      if qos ≠ .atMostOnce ∧ s.nextId = 0 then none
      else some (s.received topic payload qos retain now cfg) := by
  cases qos with
  | atMostOnce => simp [deliver, received, send, entriesFor, publishFor]
  | atLeastOnce =>
      by_cases hzero : s.nextId = 0
      · simp [deliver, allocateId, hzero]
      · simp [deliver, allocateId, hzero, received, enqueueInflight, send, entriesFor,
          publishFor, bumpId]
  | exactlyOnce =>
      by_cases hzero : s.nextId = 0
      · simp [deliver, allocateId, hzero]
      · simp [deliver, allocateId, hzero, received, enqueueInflight, send, entriesFor,
          publishFor, bumpId]

/-- Packets sent one after the other. -/
theorem foldl_send (packets : List Packet) (s : Session) :
    packets.foldl send s = { s with tx := s.tx.map (· ++ packets) } := by
  induction packets generalizing s with
  | nil => simp
  | cons packet rest ih =>
      rw [List.foldl_cons, ih]
      simp [send, Function.comp_def]

theorem bumpId_pos (id : Nat) : 0 < bumpId id := by
  unfold bumpId
  split
  · exact Nat.one_pos
  next h => exact Nat.pos_of_ne_zero h

end Session

end Relay
