import Relay.Server.Broker
import Relay.Server.Records

/-! # Writes of broker steps

What the steps of the broker queue for the worker. The session rows of the store
all have a positive expiry interval, whenever a crash comes: a session that ends
with its connection has no row.
-/

namespace Relay

namespace Broker

/-- The connection and the client identifier of a CONNECT that a step accepts. -/
def accepted? (b : Broker) : BrokerStep → Option (Nat × String)
  | .connect c packet auth _ => do
      let conn ← b.conns.lookup c
      let acl ← auth
      if packet.will.all fun w => acl.canPublish w.topic then
        some (c, (packet.session conn.peer).1)
      else none
  | _ => none

theorem accepted_connect {b : Broker} {c : Nat} {packet : ConnectPacket} {acl : Acl} {conn : Conn}
    (hconn : b.conns.lookup c = some conn)
    (hallowed : packet.will.all fun w => acl.canPublish w.topic) (now : Nat) :
    b.accepted? (.connect c packet (some acl) now) = some (c, (packet.session conn.peer).1) := by
  simp [accepted?, hconn, hallowed]

section

variable {P : PersistOp → Prop} {b b' : Broker} {st : BrokerStep}

theorem queuesAll_finish (c : Nat) (conn : Conn)
    (hleave : ∀ id, ∀ s ∈ b.hub.sessions.byId.lookup id, P (.removeSession s.clientId)) :
    Hub.QueuesAll P b.hub (b.finish c conn).hub := by
  unfold finish
  cases conn.sessionId with
  | none => exact Hub.queuesAll_same rfl rfl
  | some id => exact Hub.queuesAll_detach (hleave id) _

/-- A filter writes at most its own row. -/
theorem queuesAll_subscribeOne (conn : Conn) (limit : Nat) (h : Hub) (id : ClientId) {raw : String}
    (qos : QoS) (hput : ∀ client granted, P (.putSubscription client raw granted)) :
    Hub.QueuesAll P h (conn.subscribeOne limit h id raw qos).2.1 := by
  have hpersist (router : Router) : Hub.QueuesAll P h
      (Hub.persistSubscription { h with router := router } id raw (min qos maxQos)) := by
    unfold Hub.persistSubscription
    split
    · refine (Hub.queuesAll_same ?_ ?_).enqueue (hput _ _) <;> rfl
    · exact Hub.queuesAll_same rfl rfl
  unfold Conn.subscribeOne
  dsimp only
  split
  · exact Hub.queuesAll_same rfl rfl
  · split
    · exact hpersist _
    · split
      · exact hpersist _
      · exact Hub.queuesAll_same rfl rfl

theorem queuesAll_unsubscribe (h : Hub) (id : ClientId) (raw : String)
    (hremove : ∀ client ∈ h.durableClient id, P (.removeSubscription client raw)) :
    Hub.QueuesAll P h (h.unsubscribe id raw).2 := by
  have hunroute : Hub.QueuesAll P h (h.unroute id raw).2 := Hub.queuesAll_same rfl rfl
  simp only [Hub.unsubscribe, Hub.forgetSubscription]
  split
  next client hclient => exact hunroute.enqueue (hremove client hclient)
  · exact hunroute

/-- A step other than a worker round queues writes about the client whose CONNECT it
accepts, about sessions there are, or about neither sessions nor subscriptions. -/
theorem queuesAll_step
    (hput : ∀ c clientId, b.accepted? st = some (c, clientId) →
      ∀ expirySecs, 0 < expirySecs → P (.putSession clientId expirySecs))
    (hreplace : ∀ c clientId, b.accepted? st = some (c, clientId) → P (.removeSession clientId))
    (hleave : ∀ id, ∀ s ∈ b.hub.sessions.byId.lookup id, P (.removeSession s.clientId))
    (hsubscribe : ∀ c raw qos, st = .subscribe c raw qos →
      ∀ client granted, P (.putSubscription client raw granted))
    (hunsubscribe : ∀ id raw, ∀ client ∈ b.hub.durableClient id, P (.removeSubscription client raw))
    (haside : ∀ op, op.Aside → P op) (hwrite : ∀ op ∈ st.write?, op.Aside)
    (hwork : st ≠ .background .work) (hstep : b.step st = some b') :
    Hub.QueuesAll P b.hub b'.hub := by
  cases stepped_of_step hstep with
  | accept => exact Hub.queuesAll_same rfl rfl
  | @connect c packet acl now conn out hconn hallowed hhub =>
      have haccepted := accepted_connect hconn hallowed now
      exact Hub.queuesAll_connect (hput _ _ haccepted _) (hreplace _ _ haccepted) hhub
  | @subscribe c raw qos conn id _ _ =>
      exact queuesAll_subscribeOne conn _ _ id qos (hsubscribe c raw qos rfl)
  | @unsubscribe c raw conn id _ _ => exact queuesAll_unsubscribe _ id raw (hunsubscribe id raw)
  | finish => exact queuesAll_finish _ _ hleave
  | @background a h hothers hact =>
      cases hmoves : a.moves with
      | false =>
          refine Hub.queuesAll_unmoved hmoves ?_ ?_ hact
          · rintro rfl
            exact hwork rfl
          · rintro op rfl
            exact haside op (hwrite op rfl)
      | true =>
          cases a with
          | expire id generation =>
              cases hact
              exact Hub.queuesAll_expire (hleave id) generation
          | connect => cases hothers
          | detach => cases hothers
          | _ => cases hmoves

end

end Broker

/-! ## Stored sessions outlive their connections -/

/-- Every session row has a positive expiry interval. -/
def Storage.Lasting (st : Storage) : Prop :=
  ∀ clientId : String, ∀ secs ∈ st.sessions[clientId]?, 0 < secs

/-- The write leaves no session row with interval 0. -/
def PersistOp.Lasting (op : PersistOp) : Prop :=
  ∀ clientId row, (∀ secs ∈ row, 0 < secs) → ∀ secs ∈ op.expiryRow clientId row, 0 < secs

theorem PersistOp.Aside.lasting {op : PersistOp} (haside : op.Aside) : op.Lasting := by
  intro clientId row hrow
  cases op with
  | putSession => exact haside.elim
  | removeSession => exact haside.elim
  | _ => exact hrow

theorem PersistOp.lasting_putSession (clientId : String) {expirySecs : Nat}
    (hpos : 0 < expirySecs) : (PersistOp.putSession clientId expirySecs).Lasting := by
  intro client row hrow secs hsecs
  simp only [expiryRow] at hsecs
  split at hsecs
  · cases hsecs
    exact hpos
  · exact hrow secs hsecs

theorem PersistOp.lasting_removeSession (clientId : String) :
    (PersistOp.removeSession clientId).Lasting := by
  intro client row hrow secs hsecs
  simp only [expiryRow] at hsecs
  split at hsecs
  · cases hsecs
  · exact hrow secs hsecs

/-- The property of the store that the writes keep, one at a time. -/
theorem PersistOp.Lasting.apply {op : PersistOp} (hop : op.Lasting) {st : Storage}
    (hst : st.Lasting) : (st.applyPersistOp op).Lasting := by
  intro clientId
  rw [Storage.sessions_applyPersistOp]
  exact hop clientId _ (hst clientId)

namespace Broker

/-- Whenever a crash comes, the store has only sessions that outlive connections. -/
def Lasting (b : Broker) : Prop := ∀ d ∈ b.hub.disk, d.EachCrash Storage.Lasting

/-- Sessions with interval 0 are removed from the store, never written. -/
theorem Lasting.step {b b' : Broker} (hlasting : b.Lasting) {st : BrokerStep}
    (hwrite : ∀ op ∈ st.write?, op.Aside) (hstep : b.step st = some b') : b'.Lasting := by
  intro d' hd'
  by_cases hwork : st = .background .work
  · subst hwork
    obtain ⟨h, hact, rfl⟩ := Option.map_eq_some_iff.mp hstep
    obtain ⟨d, d₁, hd, hround, rfl⟩ := Hub.exists_of_work hact
    cases hd'
    exact (hlasting d hd).work hround
  · obtain ⟨ops, hqueues, hall⟩ := queuesAll_step
      (fun _ clientId _ _ => PersistOp.lasting_putSession clientId)
      (fun _ clientId _ => PersistOp.lasting_removeSession clientId)
      (fun _ s _ => PersistOp.lasting_removeSession s.clientId)
      (fun _ _ _ _ _ _ _ _ hrow => hrow) (fun _ _ _ _ _ _ hrow => hrow)
      (fun _ haside => haside.lasting) hwrite hwork hstep
    rw [hqueues.disk] at hd'
    obtain ⟨d, hd, rfl⟩ := Option.map_eq_some_iff.mp hd'
    exact (hlasting d hd).append fun op hop st hst => (hall op hop).apply hst

end Broker

end Relay
