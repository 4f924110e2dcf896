import Relay.Core.Acl
import Relay.Server.SessionTable

/-! # Connections over the hub

A connection handler keeps the handle and generation it was given by its last
CONNECT, and the permissions of the principal authenticated there, until its
loop ends. The broker is the hub with its open connections; one step is a CONNECT,
one filter of a SUBSCRIBE or UNSUBSCRIBE, the end of a handler, or any other
section of the hub (deliveries, acknowledgements, timers, the worker), which may
occur at any time. Authentication enters through its result.
-/

namespace Relay

structure Conn where
  peer : String
  sessionId : Option ClientId
  generation : Nat
  access : Acl
  will : Option Message
  activeFilters : Finset String

/-- The part of a CONNECT packet the handler reads, the token apart. -/
structure ConnectPacket where
  clientId : String
  cleanStart : Bool
  expirySecs : Nat
  will : Option Message

inductive SubscribeStatus where
  | granted (qos : QoS)
  | notAuthorized
  | quotaExceeded
  | topicFilterInvalid
deriving DecidableEq

def maxQos : QoS := .exactlyOnce

/-- The filter that the permissions are checked against. -/
def effectiveFilter (raw : String) : String :=
  match SharedSubscription.parse raw with
  | some shared => shared.filter.asStr
  | none => raw

/-- The permissions are checked against the very filter that the router gets. -/
theorem effectiveFilter_of_routeKey {raw filter : String} {group : Option String}
    (hkey : routeKey raw = some (group, filter)) : effectiveFilter raw = filter := by
  cases hshared : SharedSubscription.parse raw with
  | some shared =>
      simp only [routeKey, hshared, Option.some.injEq, Prod.mk.injEq] at hkey
      simp only [effectiveFilter, hshared, hkey.2]
  | none =>
      simp only [routeKey, hshared] at hkey
      obtain ⟨parsed, hparsed, heq⟩ := Option.map_eq_some_iff.mp hkey
      simp only [effectiveFilter, hshared]
      exact (TopicFilter.parse_eq_some_iff.mp hparsed).symm.trans (Prod.mk.inj heq).2

namespace ConnectPacket

def session (p : ConnectPacket) (peer : String) : String × Bool :=
  if p.clientId = "" then ("anon:" ++ peer, true) else (p.clientId, p.cleanStart)

end ConnectPacket

namespace Conn

def start (peer : String) : Conn := ⟨peer, none, 0, Acl.default, none, ∅⟩

/-- Whether a filter passes the permissions and the quota. -/
def admits (conn : Conn) (limit : Nat) (raw : String) : Option SubscribeStatus :=
  if ¬ conn.access.canSubscribe (effectiveFilter raw) then some .notAuthorized
  else if raw ∉ conn.activeFilters ∧ limit ≤ conn.activeFilters.card then some .quotaExceeded
  else none

/-- One filter of a SUBSCRIBE for the connection's session. -/
def subscribeOne (conn : Conn) (limit : Nat) (hub : Hub) (id : ClientId) (raw : String)
    (qos : QoS) : SubscribeStatus × Hub × Conn :=
  let granted := min qos maxQos
  let active := { conn with activeFilters := insert raw conn.activeFilters }
  match conn.admits limit raw with
  | some refused => (refused, hub, conn)
  | none =>
      match SharedSubscription.parse raw with
      | some shared =>
          (.granted granted, hub.subscribeShared shared.group id shared.filter granted raw, active)
      | none =>
          match TopicFilter.parse raw with
          | some filter => (.granted granted, hub.subscribe id filter granted raw, active)
          | none => (.topicFilterInvalid, hub, conn)

end Conn

/-- The hub and the open connections, with the subscription limit. -/
structure Broker where
  hub : Hub
  conns : AssocMap Nat Conn
  limit : Nat

inductive BrokerStep where
  | accept (c : Nat) (peer : String)
  | connect (c : Nat) (packet : ConnectPacket) (auth : Option Acl) (now : Nat)
  | subscribe (c : Nat) (raw : String) (qos : QoS)
  | unsubscribe (c : Nat) (raw : String)
  | close (c : Nat)
  | background (a : Section)

/-- Sections that connections perform through steps of their own. -/
def Section.background : Section → Bool
  | .connect .. => false
  | .detach .. => false
  | .subscribe .. => false
  | .subscribeShared .. => false
  | .unroute .. => false
  | _ => true

namespace Broker

/-- The handler loop ends: detach, unless no CONNECT was accepted. -/
def finish (b : Broker) (c : Nat) (conn : Conn) : Broker :=
  { b with
    hub := match conn.sessionId with
      | some id => b.hub.detach id conn.generation
      | none => b.hub
    conns := b.conns.erase c }

def handleConnect (b : Broker) (c : Nat) (conn : Conn) (packet : ConnectPacket)
    (auth : Option Acl) (now : Nat) : Option Broker :=
  match auth with
  | none => some (b.finish c conn)
  | some acl =>
      if packet.will.all fun w => acl.canPublish w.topic then
        let (clientId, cleanStart) := packet.session conn.peer
        (b.hub.connect clientId cleanStart packet.expirySecs now).map fun r =>
          -- a second CONNECT on the connection replaces handle and permissions
          let attached : Conn :=
            { conn with
              sessionId := some r.1.id
              generation := r.1.generation
              access := acl
              will := packet.will }
          { b with hub := r.2, conns := b.conns.insert c attached }
      else some (b.finish c { conn with access := acl })

/-- One step; `none` if the connection is not open or the hub panics. -/
def step (b : Broker) : BrokerStep → Option Broker
  | .accept c peer =>
      if c ∈ b.conns then none
      else some { b with conns := b.conns.insert c (Conn.start peer) }
  | .connect c packet auth now => do
      let conn ← b.conns.lookup c
      b.handleConnect c conn packet auth now
  | .subscribe c raw qos => do
      let conn ← b.conns.lookup c
      match conn.sessionId with
      | none => some (b.finish c conn)
      | some id =>
          let r := conn.subscribeOne b.limit b.hub id raw qos
          some { b with hub := r.2.1, conns := b.conns.insert c r.2.2 }
  | .unsubscribe c raw => do
      let conn ← b.conns.lookup c
      match conn.sessionId with
      | none => some (b.finish c conn)
      | some id =>
          let active := { conn with activeFilters := conn.activeFilters.erase raw }
          some { b with hub := (b.hub.unsubscribe id raw).2, conns := b.conns.insert c active }
  | .close c => do
      let conn ← b.conns.lookup c
      some (b.finish c conn)
  | .background a =>
      if a.background then (b.hub.act a).map fun h => { b with hub := h } else none

def new (storage : Option Storage) (retry : RetryConfig) (eventLogMax limit now : Nat) : Broker :=
  ⟨Hub.new storage retry eventLogMax now, ∅, limit⟩

/-! ## Restarts -/

end Broker

/-- The write that a background section is there to queue. -/
def BrokerStep.write? : BrokerStep → Option PersistOp
  | .background (.enqueue op) => some op
  | _ => none

/-- A step of the broker, or a restart that finds the store with so many of the
queued writes applied. -/
inductive LifeStep where
  | step (st : BrokerStep)
  | restart (applied : Nat) (retry : RetryConfig) (eventLogMax now : Nat)

namespace Broker

/-- Session and subscription rows are written only by the steps that concern them;
no connection survives a restart. -/
def live (b : Broker) : LifeStep → Option Broker
  | .step st => if ∀ op ∈ st.write?, op.Aside then b.step st else none
  | .restart applied retry eventLogMax now =>
      some (new (b.hub.disk.map (·.crashed applied)) retry eventLogMax b.limit now)

/-! ## What a step does -/

/-- Why a step ends the loop of a connection: a refused CONNECT, a request without a
session, or the end of the stream. -/
inductive Leaves (c : Nat) (conn : Conn) : BrokerStep → Prop where
  | refused {packet : ConnectPacket} {auth : Option Acl} {now : Nat}
      (denied : ∀ acl ∈ auth, ¬ packet.will.all fun w => acl.canPublish w.topic) :
      Leaves c conn (.connect c packet auth now)
  | subscribe {raw : String} {qos : QoS} (early : conn.sessionId = none) :
      Leaves c conn (.subscribe c raw qos)
  | unsubscribe {raw : String} (early : conn.sessionId = none) : Leaves c conn (.unsubscribe c raw)
  | close : Leaves c conn (.close c)

/-- Everything a step can do. -/
inductive Stepped (b : Broker) : BrokerStep → Broker → Prop where
  | accept {c : Nat} {peer : String} (free : c ∉ b.conns) :
      Stepped b (.accept c peer) { b with conns := b.conns.insert c (Conn.start peer) }
  | connect {c : Nat} {packet : ConnectPacket} {acl : Acl} {now : Nat} {conn : Conn}
      {out : Connected × Hub} (isOpen : b.conns.lookup c = some conn)
      (allowed : packet.will.all fun w => acl.canPublish w.topic)
      (hub : b.hub.connect (packet.session conn.peer).1 (packet.session conn.peer).2
        packet.expirySecs now = some out) :
      Stepped b (.connect c packet (some acl) now)
        { b with
          hub := out.2
          conns := b.conns.insert c { conn with
            sessionId := some out.1.id
            generation := out.1.generation
            access := acl
            will := packet.will } }
  | subscribe {c : Nat} {raw : String} {qos : QoS} {conn : Conn} {id : ClientId}
      (isOpen : b.conns.lookup c = some conn) (session : conn.sessionId = some id) :
      Stepped b (.subscribe c raw qos)
        { b with
          hub := (conn.subscribeOne b.limit b.hub id raw qos).2.1
          conns := b.conns.insert c (conn.subscribeOne b.limit b.hub id raw qos).2.2 }
  | unsubscribe {c : Nat} {raw : String} {conn : Conn} {id : ClientId}
      (isOpen : b.conns.lookup c = some conn) (session : conn.sessionId = some id) :
      Stepped b (.unsubscribe c raw)
        { b with
          hub := (b.hub.unsubscribe id raw).2
          conns := b.conns.insert c
            { conn with activeFilters := conn.activeFilters.erase raw } }
  | finish {st : BrokerStep} {c : Nat} {conn : Conn} (access : Acl)
      (isOpen : b.conns.lookup c = some conn) (leaves : Leaves c conn st) :
      Stepped b st (b.finish c { conn with access := access })
  | background {a : Section} {h : Hub} (others : a.background = true)
      (hub : b.hub.act a = some h) : Stepped b (.background a) { b with hub := h }

/-- The steps the broker takes are those the cases list. -/
theorem stepped_of_step {b b' : Broker} {st : BrokerStep} (hstep : b.step st = some b') :
    b.Stepped st b' := by
  cases st with
  | accept c peer =>
      simp only [step] at hstep
      split at hstep
      · cases hstep
      next hfree =>
        cases hstep
        exact .accept hfree
  | connect c packet auth now =>
      obtain ⟨conn, hconn, hconnect⟩ := Option.bind_eq_some_iff.mp hstep
      unfold handleConnect at hconnect
      split at hconnect
      · cases hconnect
        exact .finish conn.access hconn (.refused fun _ hacl => nomatch hacl)
      next acl =>
        split at hconnect
        next hallowed =>
          obtain ⟨out, hout, rfl⟩ := Option.map_eq_some_iff.mp hconnect
          exact .connect hconn hallowed hout
        next hdenied =>
          cases hconnect
          refine .finish acl hconn (.refused fun acl' hacl => ?_)
          cases hacl
          exact hdenied
  | subscribe c raw qos =>
      obtain ⟨conn, hconn, hrest⟩ := Option.bind_eq_some_iff.mp hstep
      split at hrest
      next hearly =>
        cases hrest
        exact .finish conn.access hconn (.subscribe hearly)
      next hid =>
        cases hrest
        exact .subscribe hconn hid
  | unsubscribe c raw =>
      obtain ⟨conn, hconn, hrest⟩ := Option.bind_eq_some_iff.mp hstep
      split at hrest
      next hearly =>
        cases hrest
        exact .finish conn.access hconn (.unsubscribe hearly)
      next hid =>
        cases hrest
        exact .unsubscribe hconn hid
  | close c =>
      obtain ⟨conn, hconn, hrest⟩ := Option.bind_eq_some_iff.mp hstep
      cases hrest
      exact .finish conn.access hconn .close
  | background a =>
      simp only [step] at hstep
      split at hstep
      next hothers =>
        obtain ⟨h, hact, rfl⟩ := Option.map_eq_some_iff.mp hstep
        exact .background hothers hact
      · cases hstep

/-! ## The effect of a step on the hub -/

def installs (b : Broker) : BrokerStep → Option (Conn × SubscriptionKey × QoS)
  | .subscribe c raw qos => do
      let conn ← b.conns.lookup c
      let id ← conn.sessionId
      match conn.admits b.limit raw with
      | some _ => none
      | none =>
          match SharedSubscription.parse raw with
          | some shared =>
              some (conn, ⟨id, some shared.group, shared.filter.asStr⟩, min qos maxQos)
          | none => (TopicFilter.parse raw).map fun filter =>
              (conn, ⟨id, none, filter.asStr⟩, min qos maxQos)
  | _ => none

/-- A subscription is installed by a SUBSCRIBE that its connection admits. -/
theorem exists_of_installs {b : Broker} {st : BrokerStep} {conn : Conn} {key : SubscriptionKey}
    {qos : QoS} (hinstalls : b.installs st = some (conn, key, qos)) :
    ∃ c raw q, st = .subscribe c raw q ∧ b.conns.lookup c = some conn ∧
      conn.sessionId = some key.client ∧ conn.admits b.limit raw = none ∧
      routeKey raw = some (key.group, key.filter) := by
  cases st with
  | subscribe c raw q =>
      obtain ⟨conn', hconn, hrest⟩ := Option.bind_eq_some_iff.mp hinstalls
      obtain ⟨id, hid, hrest⟩ := Option.bind_eq_some_iff.mp hrest
      cases hadmits : conn'.admits b.limit raw with
      | some refused => simp [hadmits] at hrest
      | none =>
          simp only [hadmits] at hrest
          cases hshared : SharedSubscription.parse raw with
          | some shared =>
              simp only [hshared, Option.some.injEq, Prod.mk.injEq] at hrest
              obtain ⟨rfl, rfl, rfl⟩ := hrest
              exact ⟨c, raw, q, rfl, hconn, hid, hadmits, by simp only [routeKey, hshared]⟩
          | none =>
              simp only [hshared] at hrest
              obtain ⟨filter, hfilter, heq⟩ := Option.map_eq_some_iff.mp hrest
              simp only [Prod.mk.injEq] at heq
              obtain ⟨rfl, rfl, rfl⟩ := heq
              refine ⟨c, raw, q, rfl, hconn, hid, hadmits, ?_⟩
              simp only [routeKey, hshared, hfilter, Option.map_some]
  | accept c peer => cases hinstalls
  | connect c packet auth now => cases hinstalls
  | unsubscribe c raw => cases hinstalls
  | close c => cases hinstalls
  | background a => cases hinstalls

/-- The subscriptions after a step, sessions coming or going apart. -/
def routed (b : Broker) (st : BrokerStep) : SubscriptionKey → Option QoS :=
  match b.installs st with
  | some (_, key, qos) => Function.update b.hub.router.granted key (some qos)
  | none =>
      match st with
      | .unsubscribe c raw =>
          match (b.conns.lookup c).bind Conn.sessionId with
          | some id => (Section.unroute id raw).routed b.hub.router.granted
          | none => b.hub.router.granted
      | _ => b.hub.router.granted

theorem routed_unroute_ne_none {held : SubscriptionKey → Option QoS} {id : ClientId} {raw : String}
    {key : SubscriptionKey} (hheld : (Section.unroute id raw).routed held key ≠ none) :
    held key ≠ none := by
  have hupdate : ∀ gone : SubscriptionKey, Function.update held gone none key ≠ none →
      held key ≠ none := by
    intro gone h
    rw [Function.update_apply] at h
    split at h
    · exact absurd rfl h
    · exact h
  cases hparse : SharedSubscription.parse raw with
  | some shared =>
      simp only [Section.routed, hparse] at hheld
      exact hupdate _ hheld
  | none =>
      simp only [Section.routed, hparse] at hheld
      exact hupdate _ hheld

/-- Only what a step installs is new. -/
theorem routed_ne_none {b : Broker} {st : BrokerStep} {key : SubscriptionKey}
    (hheld : b.routed st key ≠ none) :
    b.hub.router.granted key ≠ none ∨ ∃ conn qos, b.installs st = some (conn, key, qos) := by
  cases hinstalls : b.installs st with
  | some installed =>
      obtain ⟨conn, key', qos⟩ := installed
      simp only [routed, hinstalls] at hheld
      by_cases hkey : key = key'
      · subst hkey
        exact Or.inr ⟨conn, qos, rfl⟩
      · rw [Function.update_of_ne hkey] at hheld
        exact Or.inl hheld
  | none =>
      left
      simp only [routed, hinstalls] at hheld
      cases st with
      | unsubscribe c raw =>
          cases hid : (b.conns.lookup c).bind Conn.sessionId with
          | none => simpa only [hid] using hheld
          | some id =>
              simp only [hid] at hheld
              exact routed_unroute_ne_none hheld
      | _ => exact hheld

/-- A connection that ends changes subscriptions only by ending its session. -/
theorem effect_finish (b : Broker) (c : Nat) (conn : Conn) :
    Hub.Effect b.hub.router.granted b.hub (b.finish c conn).hub := by
  unfold finish
  cases conn.sessionId with
  | none => exact (Hub.Quiet.refl b.hub).effect
  | some id => exact Hub.effect_detach b.hub id conn.generation

theorem quiet_persistSubscription (h : Hub) (id : ClientId) (raw : String) (qos : QoS) :
    Hub.Quiet h (h.persistSubscription id raw qos) := by
  unfold Hub.persistSubscription
  split
  · exact Hub.quiet_enqueue h _
  · exact .refl h

theorem quiet_forgetSubscription (h : Hub) (id : ClientId) (raw : String) :
    Hub.Quiet h (h.forgetSubscription id raw) := by
  unfold Hub.forgetSubscription
  split
  · exact Hub.quiet_enqueue h _
  · exact .refl h

theorem effect_subscribe (h : Hub) (id : ClientId) (filter : TopicFilter) (qos : QoS)
    (raw : String) :
    Hub.Effect (Function.update h.router.granted ⟨id, none, filter.asStr⟩ (some qos)) h
      (h.subscribe id filter qos raw) := by
  refine Hub.Effect.trans_quiet ?_ (quiet_persistSubscription _ id raw qos)
  exact .quiet rfl rfl rfl (h.router.granted_subscribe id filter qos)

theorem effect_subscribeShared (h : Hub) (group : String) (id : ClientId) (filter : TopicFilter)
    (qos : QoS) (raw : String) :
    Hub.Effect (Function.update h.router.granted ⟨id, some group, filter.asStr⟩ (some qos)) h
      (h.subscribeShared group id filter qos raw) := by
  refine Hub.Effect.trans_quiet ?_ (quiet_persistSubscription _ id raw qos)
  exact .quiet rfl rfl rfl (h.router.granted_subscribeShared id filter qos group)

/-- A background section changes no subscription. -/
theorem routed_background {a : Section} (ha : a.background = true)
    (held : SubscriptionKey → Option QoS) : a.routed held = held := by
  cases a <;> first | rfl | cases ha

/-- One filter of a SUBSCRIBE installs at most its own subscription. -/
theorem effect_subscribeOne {b : Broker} {c : Nat} {conn : Conn} {id : ClientId}
    (hconn : b.conns.lookup c = some conn) (hid : conn.sessionId = some id) (raw : String)
    (qos : QoS) :
    Hub.Effect (b.routed (.subscribe c raw qos)) b.hub
      (conn.subscribeOne b.limit b.hub id raw qos).2.1 := by
  simp only [routed, installs, hconn, hid, Option.bind_eq_bind, Option.bind_some, Conn.subscribeOne]
  cases conn.admits b.limit raw with
  | some refused => exact (Hub.Quiet.refl b.hub).effect
  | none =>
      cases SharedSubscription.parse raw with
      | some shared => exact effect_subscribeShared ..
      | none =>
          cases TopicFilter.parse raw with
          | some filter => exact effect_subscribe ..
          | none => exact (Hub.Quiet.refl b.hub).effect

/-- A step that ends a loop changes no subscription. -/
theorem Leaves.routed {b : Broker} {c : Nat} {conn : Conn} {st : BrokerStep}
    (hconn : b.conns.lookup c = some conn) (hleaves : Leaves c conn st) :
    b.routed st = b.hub.router.granted := by
  cases hleaves with
  | refused => rfl
  | close => rfl
  | subscribe hearly => simp [Broker.routed, installs, hconn, hearly]
  | unsubscribe hearly => simp [Broker.routed, installs, hconn, hearly]

/-- Every step has one of the four effects. -/
theorem step_effect {b b' : Broker} {st : BrokerStep} (hstep : b.step st = some b') :
    Hub.Effect (b.routed st) b.hub b'.hub := by
  cases stepped_of_step hstep with
  | accept => exact (Hub.Quiet.refl b.hub).effect
  | connect _ _ hhub => exact Hub.effect_connect hhub
  | subscribe hconn hid => exact effect_subscribeOne hconn hid _ _
  | @unsubscribe c raw conn id hconn hid =>
      have hrouted : b.routed (.unsubscribe c raw) =
          (Section.unroute id raw).routed b.hub.router.granted := by
        simp [routed, installs, hconn, hid]
      rw [hrouted]
      exact (Hub.effect_unroute b.hub id raw).trans_quiet (quiet_forgetSubscription _ id raw)
  | finish access hconn hleaves =>
      rw [hleaves.routed hconn]
      exact b.effect_finish _ _
  | background hothers hact =>
      have heffect := Hub.act_effect hact
      rw [routed_background hothers] at heffect
      exact heffect

end Broker

end Relay
