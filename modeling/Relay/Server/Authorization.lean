import Relay.Server.Orphans

/-! # Who authorised a subscription

Permissions are checked when a subscription is installed, against the principal
authenticated on that connection. Sessions are keyed by the client identifier
alone and outlive connections, so a later connection of another principal takes
the subscriptions over unchecked. What does hold: every subscription was accepted
under the permissions of the connection that installed it, and if a client
identifier is always used with the same permissions, the connection attached to
a session covers everything the session is subscribed to.
-/

namespace Relay

open Hub

/-- A SUBSCRIBE leaves the connection's handle and permissions alone. -/
theorem Conn.frame_subscribeOne (conn : Conn) (limit : Nat) (hub : Hub) (id : ClientId)
    (raw : String) (qos : QoS) :
    (conn.subscribeOne limit hub id raw qos).2.2.sessionId = conn.sessionId ∧
      (conn.subscribeOne limit hub id raw qos).2.2.access = conn.access := by
  simp only [subscribeOne]
  repeat' split
  all_goals exact ⟨rfl, rfl⟩

namespace Broker

/-! ## What an installing connection has -/

/-- A subscription is installed for the connection's own session, and only if its
permissions allow the filter. -/
theorem access_of_installs {b : Broker} {st : BrokerStep} {conn : Conn} {key : SubscriptionKey}
    {qos : QoS} (hinstalls : b.installs st = some (conn, key, qos)) :
    (∃ c, b.conns.lookup c = some conn) ∧ conn.sessionId = some key.client ∧
      conn.access.canSubscribe key.filter = true := by
  obtain ⟨c, raw, q, rfl, hconn, hid, hadmits, hkey⟩ := exists_of_installs hinstalls
  refine ⟨⟨c, hconn⟩, hid, ?_⟩
  by_contra hdenied
  rw [← effectiveFilter_of_routeKey hkey] at hdenied
  simp [Conn.admits, hdenied] at hadmits

/-- A subscription held after a step was held before or is the one installed. -/
theorem granted_step {b b' : Broker} {st : BrokerStep} (hstep : b.step st = some b')
    {key : SubscriptionKey} (hheld : b'.hub.router.granted key ≠ none) :
    b.hub.router.granted key ≠ none ∨ ∃ conn qos, b.installs st = some (conn, key, qos) := by
  rcases (step_effect hstep).granted_ne_none hheld with hrouted | hold
  · exact routed_ne_none hrouted
  · exact Or.inl hold

/-- The step of a run that installed a subscription, with the connection's state
at that moment. -/
def InstalledBy (b₀ : Broker) (steps : List BrokerStep) (key : SubscriptionKey) : Prop :=
  ∃ pre st post b conn qos, steps = pre ++ st :: post ∧ Machine.run step b₀ pre = some b ∧
    b.installs st = some (conn, key, qos) ∧ conn.sessionId = some key.client ∧
    conn.access.canSubscribe key.filter = true

theorem installedBy_of_granted {b₀ b : Broker} {steps : List BrokerStep}
    (hrun : Machine.run step b₀ steps = some b) {key : SubscriptionKey}
    (hheld : b.hub.router.granted key ≠ none) :
    b₀.hub.router.granted key ≠ none ∨ InstalledBy b₀ steps key := by
  induction steps generalizing b₀ with
  | nil =>
      cases hrun
      exact Or.inl hheld
  | cons st rest ih =>
      obtain ⟨b₁, hstep, hrest⟩ := Machine.run_cons_eq_some.mp hrun
      rcases ih hrest with hold | ⟨pre, st', post, b₂, conn, qos, rfl, hpre, hinstalls⟩
      · rcases granted_step hstep hold with hfirst | ⟨conn, qos, hinstalls⟩
        · exact Or.inl hfirst
        · exact Or.inr ⟨[], st, rest, b₀, conn, qos, rfl, rfl, hinstalls,
            (access_of_installs hinstalls).2⟩
      · refine Or.inr ⟨st :: pre, st', post, b₂, conn, qos, rfl, ?_, hinstalls⟩
        exact Machine.run_cons_eq_some.mpr ⟨b₁, hstep, hpre⟩

/-! ## Permissions bound to the client identifier -/

/-- Every accepted CONNECT of a client identifier has the permissions bound to
it. -/
def Bound (aclOf : String → Acl) (b : Broker) : BrokerStep → Prop
  | .connect c packet (some acl) _ =>
      ∀ conn, b.conns.lookup c = some conn → acl = aclOf (packet.session conn.peer).1
  | _ => True

/-- Handles of open connections and of subscriptions have been given out, and
carry the permissions of their client. -/
structure Authorized (aclOf : String → Acl) (b : Broker) : Prop where
  consistent : b.hub.Consistent
  conn_below : ∀ c conn id, b.conns.lookup c = some conn → conn.sessionId = some id →
    id < b.hub.nextId
  conn_access : ∀ c conn id client, b.conns.lookup c = some conn → conn.sessionId = some id →
    b.hub.sessions.clientOf id = some client → conn.access = aclOf client
  key_below : ∀ key, b.hub.router.granted key ≠ none → key.client < b.hub.nextId
  key_access : ∀ key client, b.hub.router.granted key ≠ none →
    b.hub.sessions.clientOf key.client = some client →
    (aclOf client).canSubscribe key.filter = true

/-- Ending a connection opens none. -/
theorem lookup_of_finish {b : Broker} {c d : Nat} {conn conn' : Conn}
    (hconn' : (b.finish d conn).conns.lookup c = some conn') : b.conns.lookup c = some conn' := by
  simp only [finish, AssocMap.lookup_erase] at hconn'
  split at hconn'
  · cases hconn'
  · exact hconn'

/-- Where a connection's handle and permissions come from: from before the step,
or from the CONNECT the step processed. -/
theorem conns_step {b b' : Broker} {st : BrokerStep} (hstep : b.step st = some b') {c : Nat}
    {conn' : Conn} {id : ClientId} (hconn' : b'.conns.lookup c = some conn')
    (hid : conn'.sessionId = some id) :
    (∃ conn, b.conns.lookup c = some conn ∧ conn.sessionId = some id ∧
      conn.access = conn'.access) ∨
    ∃ packet acl now conn connected, st = .connect c packet (some acl) now ∧
      b.conns.lookup c = some conn ∧ conn'.access = acl ∧ id = connected.id ∧
      b.hub.connect (packet.session conn.peer).1 (packet.session conn.peer).2 packet.expirySecs
        now = some (connected, b'.hub) := by
  have hsame : b.conns.lookup c = some conn' → ∃ conn, b.conns.lookup c = some conn ∧
      conn.sessionId = some id ∧ conn.access = conn'.access := fun h => ⟨conn', h, hid, rfl⟩
  -- a step that only replaces connection `d` by one with the same handle and permissions
  have hreplace : ∀ (d : Nat) (conn new : Conn), b.conns.lookup d = some conn →
      (AList.insert d new b.conns).lookup c = some conn' → new.sessionId = conn.sessionId →
      new.access = conn.access → ∃ conn, b.conns.lookup c = some conn ∧
        conn.sessionId = some id ∧ conn.access = conn'.access := by
    intro d conn new hd hinsert hsession haccess
    rw [AssocMap.lookup_insert] at hinsert
    split at hinsert
    next heq =>
      subst heq
      cases hinsert
      exact ⟨conn, hd, hsession ▸ hid, haccess.symm⟩
    · exact hsame hinsert
  cases stepped_of_step hstep with
  | accept =>
      simp only [AssocMap.lookup_insert] at hconn'
      split at hconn'
      · cases hconn'
        cases hid
      · exact Or.inl (hsame hconn')
  | @connect d packet acl now conn out hd _ hhub =>
      simp only [AssocMap.lookup_insert] at hconn'
      split at hconn'
      next heq =>
        subst heq
        cases hconn'
        cases hid
        exact Or.inr ⟨packet, acl, now, conn, out.1, rfl, hd, rfl, rfl, hhub⟩
      · exact Or.inl (hsame hconn')
  | @subscribe d raw qos conn id' hd _ =>
      obtain ⟨hsession, haccess⟩ := conn.frame_subscribeOne b.limit b.hub id' raw qos
      exact Or.inl (hreplace d conn _ hd hconn' hsession haccess)
  | unsubscribe hd _ => exact Or.inl (hreplace _ _ _ hd hconn' rfl rfl)
  | finish => exact Or.inl (hsame (lookup_of_finish hconn'))
  | background => exact Or.inl (hsame hconn')

/-- A step that connects must bind the permissions of the client; every other step
inherits them. -/
theorem Authorized.step {aclOf : String → Acl} {b b' : Broker} {st : BrokerStep}
    (hauth : Authorized aclOf b) (hbound : b.Bound aclOf st) (hstep : b.step st = some b') :
    Authorized aclOf b' := by
  have heffect := step_effect hstep
  have hconnBelow : ∀ c conn id, b'.conns.lookup c = some conn → conn.sessionId = some id →
      id < b'.hub.nextId := by
    intro c conn id hconn hid
    rcases conns_step hstep hconn hid with ⟨conn₀, hconn₀, hid₀, _⟩ |
      ⟨packet, acl, now, conn₀, connected, _, _, _, rfl, hconnect⟩
    · exact Nat.lt_of_lt_of_le (hauth.conn_below c conn₀ id hconn₀ hid₀) heffect.nextId_le
    · exact (hauth.consistent.effect heffect).below _ _ (hauth.consistent.clientOf_connect hconnect)
  refine ⟨hauth.consistent.effect heffect, hconnBelow, ?_, ?_, ?_⟩
  · intro c conn id client hconn hid hclient
    rcases conns_step hstep hconn hid with ⟨conn₀, hconn₀, hid₀, haccess⟩ |
      ⟨packet, acl, now, conn₀, connected, rfl, hconn₀, rfl, rfl, hconnect⟩
    · have hold := heffect.clientOf_old (hauth.conn_below c conn₀ id hconn₀ hid₀) hclient
      rw [← haccess]
      exact hauth.conn_access c conn₀ id client hconn₀ hid₀ hold
    · rw [hauth.consistent.clientOf_connect hconnect] at hclient
      cases hclient
      exact hbound conn₀ hconn₀
  · intro key hheld
    rcases granted_step hstep hheld with hold | ⟨conn, qos, hinstalls⟩
    · exact Nat.lt_of_lt_of_le (hauth.key_below key hold) heffect.nextId_le
    · obtain ⟨⟨c, hconn⟩, hid, _⟩ := access_of_installs hinstalls
      exact Nat.lt_of_lt_of_le (hauth.conn_below c conn _ hconn hid) heffect.nextId_le
  · intro key client hheld hclient
    rcases granted_step hstep hheld with hold | ⟨conn, qos, hinstalls⟩
    · exact hauth.key_access key client hold
        (heffect.clientOf_old (hauth.key_below key hold) hclient)
    · obtain ⟨⟨c, hconn⟩, hid, haccess⟩ := access_of_installs hinstalls
      have hbelow := hauth.conn_below c conn _ hconn hid
      rw [hauth.conn_access c conn _ client hconn hid (heffect.clientOf_old hbelow hclient)]
        at haccess
      exact haccess

/-- The connection attached to an online session is permitted every subscription
the session holds. -/
def Covered (b : Broker) : Prop :=
  ∀ c conn id s, b.conns.lookup c = some conn → conn.sessionId = some id →
    b.hub.sessions.byId.lookup id = some s → conn.generation = s.generation → s.tx ≠ none →
    ∀ key, key.client = id → b.hub.router.granted key ≠ none →
      conn.access.canSubscribe key.filter = true

/-- Permissions that follow the client cover what its session holds. -/
theorem Authorized.covered {aclOf : String → Acl} {b : Broker} (hauth : Authorized aclOf b) :
    b.Covered := by
  rintro c conn id s hconn hid hs _ _ key rfl hheld
  have hclient : b.hub.sessions.clientOf key.client = some s.clientId :=
    clientOf_eq_some_iff.mpr ⟨s, hs, rfl⟩
  rw [hauth.conn_access c conn _ _ hconn hid hclient]
  exact hauth.key_access key _ hheld hclient

def StartsCovered (aclOf : String → Acl) (h : Hub) : Prop :=
  ∀ key client, h.router.granted key ≠ none → h.sessions.clientOf key.client = some client →
    (aclOf client).canSubscribe key.filter = true

theorem authorized_new {aclOf : String → Acl} {storage : Option Storage} {retry : RetryConfig}
    {eventLogMax limit now : Nat}
    (hstart : StartsCovered aclOf (Hub.new storage retry eventLogMax now)) :
    Authorized aclOf (new storage retry eventLogMax limit now) := by
  have hcons := consistent_new storage retry eventLogMax now
  refine ⟨hcons, ?_, ?_, ?_, hstart⟩
  · intro c conn id hconn
    simp [new] at hconn
  · intro c conn id client hconn
    simp [new] at hconn
  · intro key hheld
    have hclient := noOrphans_iff.mp (noOrphans_new storage retry eventLogMax now) key hheld
    obtain ⟨client, hclient⟩ := Option.ne_none_iff_exists'.mp hclient
    exact hcons.below client key.client hclient

/-- In every run, every subscription held was loaded at startup or accepted by the
permissions of the connection that installed it, at that moment. If moreover all
CONNECTs of a client identifier carry the permissions bound to it, the connection
attached to an online session covers the session's subscriptions in every state. -/
theorem subscriptions_authorized (storage : Option Storage) (retry : RetryConfig)
    (eventLogMax limit now : Nat) (steps : List BrokerStep) :
    (∀ b key, Machine.run step (new storage retry eventLogMax limit now) steps = some b →
      b.hub.router.granted key ≠ none →
      (Hub.new storage retry eventLogMax now).router.granted key ≠ none ∨
        InstalledBy (new storage retry eventLogMax limit now) steps key) ∧
    ∀ aclOf : String → Acl, StartsCovered aclOf (Hub.new storage retry eventLogMax now) →
      Machine.Meets step (fun b st => b.Bound aclOf st)
        (new storage retry eventLogMax limit now) steps →
      Machine.Always step Covered (new storage retry eventLogMax limit now) steps := by
  refine ⟨fun b key hrun hheld => installedBy_of_granted hrun hheld, ?_⟩
  intro aclOf hstart hbound
  apply Machine.always_of_meets (Authorized aclOf) (fun b st => b.Bound aclOf st)
  · exact fun b st b' hauth hst hstep => hauth.step hst hstep
  · exact fun b hauth => hauth.covered
  · exact authorized_new hstart
  · exact hbound

/-- One principal, reconnecting under its client identifier. -/
theorem subscriptions_authorized_reconnect :
    Machine.Always step Covered (new none ⟨5, 5, 60⟩ 0 100 0)
      [.accept 0 "p", .connect 0 ⟨"c", false, 60, none⟩ (some ⟨[], ["a/#"]⟩) 0,
        .subscribe 0 "a/b" .atLeastOnce, .close 0, .accept 1 "q",
        .connect 1 ⟨"c", false, 60, none⟩ (some ⟨[], ["a/#"]⟩) 0] := by
  refine (subscriptions_authorized none ⟨5, 5, 60⟩ 0 100 0 _).2 (fun _ => ⟨[], ["a/#"]⟩) ?_ ?_
  · intro key client hheld
    exact absurd (congrFun Router.granted_new key) hheld
  · simp [Machine.Meets, Bound]

/-- A second principal that resumes the session of the first under its client
identifier receives a topic its permissions do not cover. -/
theorem resume_not_covered :
    ∃ b conn s, Machine.run step (new none ⟨5, 5, 60⟩ 0 100 0)
        [.accept 0 "p", .connect 0 ⟨"c", false, 60, none⟩ (some ⟨[], ["secret/#"]⟩) 0,
          .subscribe 0 "secret/a" .atLeastOnce, .close 0, .accept 1 "q",
          .connect 1 ⟨"c", false, 60, none⟩ (some ⟨[], ["public/#"]⟩) 0] = some b ∧
      b.conns.lookup 1 = some conn ∧ conn.sessionId = some 1 ∧
      b.hub.sessions.byId.lookup 1 = some s ∧ conn.generation = s.generation ∧ s.tx = some [] ∧
      b.hub.router.granted ⟨1, none, "secret/a"⟩ = some .atLeastOnce ∧
      conn.access.canSubscribe "secret/a" = false := by
  refine ⟨_, _, _, rfl, rfl, rfl, rfl, ?_⟩
  decide

end Broker

end Relay
