import Relay.Server.Mediation

/-! # The CONNECT gate

The connect timeout waits for some first packet, and whether a client without a
session may stay is left to the arm of the handler for that packet. Most arms end
the connection. The acknowledgements, PINGREQ and the kinds that the handler does
not know do not, and two of them answer.
-/

namespace Relay

/-- Packets that do not end the connection of a client without a session. -/
def ClientPacket.lenient : ClientPacket → Bool
  | .publishAck _ => true
  | .publishReceived _ => true
  | .publishComplete _ => true
  | .publishRelease _ => true
  | .pingRequest => true
  | .other => true
  | .connect _ _ => false
  | .subscribe _ _ => false
  | .publish _ => false
  | .unsubscribe _ _ => false
  | .disconnect _ => false

def Reply.isConnectAck : Reply → Bool
  | .connectAck _ _ => true
  | _ => false

/-- A connection that waits for its next packet has a session, and one without a
session is sent nothing but a CONNACK. -/
structure Live.Gated (l : Live) : Prop where
  session : ∀ conn, l.phase = .waiting conn → conn.sessionId.isSome
  reply : ∀ conn input reply next, l.phase = .busy conn input (.call (.send reply) next) →
    conn.sessionId.isSome ∨ reply.isConnectAck = true

namespace Conn

variable {cfg : HandlerConfig} {conn : Conn}

def ConnackOnly (c : Call) : Prop := ∀ reply, c = .send reply → reply.isConnectAck = true

/-- A CONNECT is answered by a CONNACK, and the connection that goes on has a session. -/
theorem gate_onConnect (packet : ConnectPacket) (password : Option Bytes) :
    (conn.onConnect cfg packet password).Meets ConnackOnly
      fun out => out.1 = .next → out.2.sessionId.isSome := by
  have hconnack : ∀ present reason, ConnackOnly (.send (.connectAck present reason)) := by
    rintro present reason reply ⟨⟩
    rfl
  unfold onConnect
  split
  · exact meets_refuse (hconnack false .notAuthorized) nofun
  · dsimp only
    split
    · refine ⟨fun reply heq => ?_, fun connected =>
        meets_reply (hconnack _ .success) fun _ _ => rfl⟩
      cases heq
    · exact meets_refuse (hconnack false .notAuthorized) nofun

/-- A first packet that is not lenient ends the connection, unless it is an
accepted CONNECT. -/
theorem gate_onPacket {p : ClientPacket} (hnone : conn.sessionId = none)
    (hp : p.lenient = false) :
    (conn.onPacket cfg p).Meets ConnackOnly fun out => out.1 = .next → out.2.sessionId.isSome := by
  cases p with
  | connect packet password => exact gate_onConnect packet password
  | subscribe packetId filters =>
      rw [onPacket, onSubscribe, hnone]
      exact nofun
  | publish p =>
      rw [onPacket, onPublish, hnone]
      exact nofun
  | unsubscribe packetId filters =>
      rw [onPacket, onUnsubscribe, hnone]
      exact nofun
  | disconnect normal => exact nofun
  | _ => cases hp

/-- A session is never given up again. -/
theorem session_onInput (hsession : conn.sessionId.isSome) (input : Input) :
    (conn.onInput cfg input).Meets (fun _ => True) fun out => out.2.sessionId.isSome := by
  refine (permits_onInput cfg conn input).mono (fun _ _ => trivial) fun out hbecomes => ?_
  rw [Becomes] at hbecomes
  split at hbecomes
  · exact hbecomes.1
  · exact hbecomes.1 ▸ hsession

end Conn

namespace Phase

def Gated : Phase → Prop
  | .waiting conn => conn.sessionId.isSome
  | .busy conn _ rest =>
      conn.sessionId.isSome ∧ rest.Meets (fun _ => True) (fun out => out.2.sessionId.isSome) ∨
        rest.Meets Conn.ConnackOnly fun out => out.1 = .next → out.2.sessionId.isSome
  | .ending _ _ => True

/-- Both kinds of text lead on to a state behind the gate. -/
theorem gated_settle {conn : Conn} {input : Input} {rest : Handler (Flow × Conn)}
    (hrest : (Phase.busy conn input rest).Gated) : (settle conn input rest).Gated := by
  cases rest with
  | call c next => exact hrest
  | done out =>
      obtain ⟨flow, conn'⟩ := out
      cases flow with
      | leave clean => trivial
      | next =>
          rcases hrest with ⟨-, hsession⟩ | hsession
          · exact hsession
          · exact hsession rfl

end Phase

namespace Live

/-- The handler keeps the gate through every input and every call. -/
theorem gated_step {cfg : HandlerConfig} {l l' : Live} {a : LiveStep} (hl : l.phase.Gated)
    (hstep : l.step cfg a = some l') : l'.phase.Gated := by
  cases a with
  | receive input =>
      simp only [step] at hstep
      split at hstep
      next conn hphase =>
        rw [hphase] at hl
        split at hstep
        · cases hstep
          exact Phase.gated_settle (Or.inl ⟨hl, Conn.session_onInput hl input⟩)
        · cases hstep
      next => cases hstep
  | own r =>
      simp only [step] at hstep
      split at hstep
      next conn input c next hphase =>
        obtain ⟨out, -, rfl⟩ := Option.map_eq_some_iff.mp hstep
        rw [hphase] at hl
        exact Phase.gated_settle (hl.imp (fun h => ⟨h.1, h.2.2 out.1⟩) fun h => h.2 out.1)
      next =>
        obtain ⟨out, -, rfl⟩ := Option.map_eq_some_iff.mp hstep
        trivial
      next => cases hstep
  | env a =>
      obtain ⟨h, -, rfl⟩ := Option.map_eq_some_iff.mp hstep
      exact hl

theorem gated_of_phase {l : Live} (hl : l.phase.Gated) : l.Gated := by
  constructor
  · intro conn hphase
    rwa [hphase] at hl
  · intro conn input reply next hphase
    rw [hphase] at hl
    exact hl.imp (fun h => h.1) fun h => h.1 reply rfl

/-- A connection stays behind the gate in every run, whatever the hub and the
packets that follow, exactly if its first packet is not lenient. -/
theorem gated_iff (cfg : HandlerConfig) (peer : String) (p : ClientPacket) :
    (∀ hub steps l, Machine.run (step cfg) (start hub peer) (.receive (.packet p) :: steps) =
      some l → l.Gated) ↔ p.lenient = false := by
  constructor
  · intro hgated
    by_contra hlenient
    -- runs of the kinds that stay: the packet, and for PINGREQ the flush before the answer
    have hfirst := hgated (Hub.new none ⟨5, 5, 60⟩ 0 0) []
    have hanswer := hgated (Hub.new none ⟨5, 5, 60⟩ 0 0) [.own ⟨⟨0, 0⟩, 0, true⟩]
    have hnone : ¬ (Conn.start peer).sessionId.isSome := nofun
    cases p with
    | publishAck pid => exact hnone ((hfirst _ rfl).session _ rfl)
    | publishReceived pid => exact hnone ((hfirst _ rfl).session _ rfl)
    | publishComplete pid => exact hnone ((hfirst _ rfl).session _ rfl)
    | other => exact hnone ((hfirst _ rfl).session _ rfl)
    | publishRelease pid =>
        rcases (hfirst _ rfl).reply _ _ _ _ rfl with hsession | hreply
        · exact hnone hsession
        · cases hreply
    | pingRequest =>
        rcases (hanswer _ rfl).reply _ _ _ _ rfl with hsession | hreply
        · exact hnone hsession
        · cases hreply
    | _ => exact hlenient rfl
  · intro hp hub steps l hrun
    obtain ⟨l₁, hfirst, hrest⟩ := Machine.run_cons_eq_some.mp hrun
    cases hfirst
    refine gated_of_phase (Machine.run_invariant (fun _ _ _ => gated_step) ?_ hrest)
    exact Phase.gated_settle (Or.inr (Conn.gate_onPacket rfl hp))

/-- PINGREQ as the first packet: the client is answered and stays, without a
session. -/
theorem ungated_ping :
    let r : Reading := ⟨⟨0, 0⟩, 0, true⟩
    ∃ l₁ l₂ conn input next,
      Machine.run (step (openConfig ⟨[], []⟩)) (start (Hub.new none ⟨5, 5, 60⟩ 0 0) "p")
        [.receive (.packet .pingRequest), .own r] = some l₁ ∧
      l₁.phase = .busy conn input (.call (.send .pingResponse) next) ∧
      l₁.step (openConfig ⟨[], []⟩) (.own r) = some l₂ ∧ l₂.phase = .waiting conn ∧
      conn.sessionId = none :=
  ⟨_, _, _, _, _, rfl, rfl, rfl, rfl, rfl⟩

end Live

end Relay
