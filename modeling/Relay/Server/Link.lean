import Relay.Foundation.Exchange
import Relay.Server.Handshake
import Relay.Server.Touches

/-! # A session and its client

A session of the hub together with the client at the other end of its connection. The
packets put on the channel reach the client in order as long as the connection lasts;
what the client replies is handled in order, and what it had replied on an earlier
connection may still be handled after the next one is up. The client keeps to the
receiver's side of the protocol: it confirms every message, and passes a QoS 2 message on
unless it remembers the packet identifier.
-/

namespace Relay

def Publish.message (p : Publish) : Message := ⟨p.topic, p.payload, p.qos, p.retain⟩

deriving instance DecidableEq for Ack

structure Client where
  /-- Packets of the present connection that the client has not read. -/
  line : List Packet
  /-- Packet identifiers of QoS 2 messages that are not released. -/
  held : Finset Nat
  /-- Messages passed on to the application. -/
  log : List Message
  replies : List Ack
  /-- Replies on earlier connections that may still be handled. -/
  late : List Ack

namespace Client

def start : Client := ⟨[], ∅, [], [], []⟩

def read (c : Client) : Packet → Client
  | .publishRelease pid => { c with held := c.held.erase pid, replies := c.replies ++ [.pubcomp pid] }
  | .publish p =>
      match p.qos, p.packetId with
      | .exactlyOnce, some pid =>
          if pid ∈ c.held then { c with replies := c.replies ++ [.pubrec pid] }
          else { c with
            held := insert pid c.held
            log := c.log ++ [p.message]
            replies := c.replies ++ [.pubrec pid] }
      | .atLeastOnce, some pid =>
          { c with log := c.log ++ [p.message], replies := c.replies ++ [.puback pid] }
      | _, _ => { c with log := c.log ++ [p.message] }

/-- The next connection; what was under way on the last one is lost to the client. -/
def reconnect (c : Client) (packets : List Packet) : Client :=
  { c with line := packets, replies := [], late := c.late ++ c.replies }

end Client

structure Link where
  session : Session
  client : Client
  /-- Messages delivered to the session, and those given up. -/
  offered : List Message
  dropped : List DeadMsg

inductive LinkStep where
  | handle (hd : Handling)
  | resume (now : Nat)
  | read
  | answer
  | answerLate (k : Nat)

def LinkStep.offersQos2 : LinkStep → Bool
  | .handle (.call (.deliver _ _ qos _ _)) => qos = .exactlyOnce
  | _ => false

def Packet.isQos0 : Packet → Bool
  | .publish p => p.qos = .atMostOnce
  | .publishRelease _ => false

def Packet.qos2Id : Packet → Option Nat
  | .publish p => if p.qos = .exactlyOnce then p.packetId else none
  | .publishRelease _ => none

namespace Handling

/-- What the hub does to a session other than handling a reply or attaching a channel. -/
def unasked : Handling → Bool
  | .call .attach => false
  | .call (.onPuback _) => false
  | .call (.onPubrec _) => false
  | .call (.onPubcomp _) => false
  | .pass packets => packets.all Packet.isQos0
  | _ => true

/-- The message that is delivered. -/
def offer : Handling → Option Message
  | .call (.deliver topic payload qos retain _) => some ⟨topic, payload, qos, retain⟩
  | _ => none

end Handling

/-- Packets put on the channel since, if it was kept. -/
def Session.putSince (before after : Session) : List Packet :=
  (after.tx.getD []).drop (before.tx.getD []).length

namespace Link

variable (cfg : RetryConfig) (l : Link)

def start (s : Session) : Link := ⟨s, .start, [], []⟩

/-- Something is done to the session; packets put on the channel are for the client. -/
def handle (hd : Handling) : Option Link :=
  (l.session.handle cfg hd).map fun out =>
    { session := out.1
      client := { l.client with line := l.client.line ++ l.session.putSince out.1 }
      offered := l.offered ++ hd.offer.toList
      dropped := l.dropped ++ out.2 }

def step : LinkStep → Option Link
  | .handle hd => if hd.unasked then l.handle cfg hd else none
  | .resume now =>
      let session := Session.retransmit { l.session with tx := some [] } now cfg
      some { l with session := session, client := l.client.reconnect (session.tx.getD []) }
  | .read =>
      match l.client.line with
      | [] => none
      | packet :: rest => some { l with client := Client.read { l.client with line := rest } packet }
  | .answer =>
      match l.client.replies with
      | [] => none
      | ack :: rest => handle cfg { l with client := { l.client with replies := rest } } (.call ack.op)
  | .answerLate k =>
      match l.client.late[k]? with
      | none => none
      | some ack =>
          handle cfg { l with client := { l.client with late := l.client.late.eraseIdx k } }
            (.call ack.op)

/-- The identifier is at rest: no QoS 2 message in the queue or on the line has it, no
PUBREC for it is under way, and the client does not remember it. -/
def Rests (pid : Nat) : Prop :=
  (∀ e ∈ l.session.inflight, e.state.isQos2 = true → e.state.packetId ≠ some pid) ∧
    (∀ packet ∈ l.client.line, packet.qos2Id ≠ some pid) ∧
      .pubrec pid ∉ l.client.replies ∧ .pubrec pid ∉ l.client.late ∧ pid ∉ l.client.held

instance (pid : Nat) : Decidable (l.Rests pid) :=
  inferInstanceAs (Decidable (_ ∧ _ ∧ _ ∧ _ ∧ _))

/-- A message delivered at QoS 2 gets an identifier that is at rest. -/
def AtRest (st : LinkStep) : Prop := st.offersQos2 = true → l.Rests l.session.nextId

instance (st : LinkStep) : Decidable (l.AtRest st) :=
  inferInstanceAs (Decidable (_ → _))

def awaiting : List Message := l.session.inflight.filterMap fun e =>
  match e.state with
  | .qos2AwaitRec p => some p.message
  | _ => none

end Link

end Relay
