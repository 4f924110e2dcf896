import Relay.Server.Broker
import Relay.Server.Fanout
import Relay.Server.Startup

/-! # Subscriptions without a session

Sessions leave the table together with their subscriptions, and new handles have
none. The one way to an orphan subscription is a SUBSCRIBE on a connection whose
session was replaced or discarded in the meantime: the router does not look at
the session table.
-/

namespace Relay

open Hub

theorem Hub.noOrphans_iff {h : Hub} :
    h.NoOrphans ↔ ∀ key, h.router.granted key ≠ none → h.sessions.clientOf key.client ≠ none := by
  simp only [NoOrphans, SessionTable.clientOf, ne_eq, Option.map_eq_none_iff, ← Option.ne_none_iff_exists']

/-! ## Startup -/

/-- What startup grants, it grants to the handle of a session it rebuilds. -/
theorem noOrphans_new (storage : Option Storage) (retry : RetryConfig) (eventLogMax now : Nat) :
    (Hub.new storage retry eventLogMax now).NoOrphans := by
  intro key hheld
  cases storage with
  | none => exact absurd (congrFun Router.granted_new key) hheld
  | some st =>
      have hnew := rebuilt_new st retry eventLogMax now
      rw [hnew.granted key.client (key.group, key.filter)] at hheld
      rw [hnew.byId]
      cases hslot : slot st.loadSessions key.client with
      | none =>
          rw [hslot] at hheld
          exact absurd rfl hheld
      | some ps => exact ⟨_, rfl⟩

/-! ## Steps -/

namespace Broker

/-- The session of a subscription being installed is there. -/
def SubscribesLive (b : Broker) (st : BrokerStep) : Prop :=
  ∀ conn key qos, b.installs st = some (conn, key, qos) →
    ∃ s, b.hub.sessions.byId.lookup key.client = some s

/-- A session takes its subscriptions along, and a subscription is installed only for one
that is there. -/
theorem noOrphans_step {b b' : Broker} {st : BrokerStep} (hno : b.hub.NoOrphans)
    (hlive : b.SubscribesLive st) (hstep : b.step st = some b') : b'.hub.NoOrphans := by
  rw [noOrphans_iff] at hno ⊢
  intro key hheld
  cases step_effect hstep with
  | quiet clientOf _ _ router =>
      rw [clientOf]
      rw [router] at hheld
      -- a key that is new was installed by this step, under the condition
      rcases routed_ne_none hheld with hold | ⟨conn, qos, hinstalls⟩
      · exact hno key hold
      · obtain ⟨s, hs⟩ := hlive conn key qos hinstalls
        simp [SessionTable.clientOf, hs]
  | fresh clientId _ clientOf _ _ router =>
      rw [router] at hheld
      rw [clientOf, Function.update_apply]
      split
      · simp
      · exact hno key hheld
  | replaced clientId old _ clientOf _ _ router =>
      rw [router] at hheld
      obtain ⟨hne, hheld⟩ := Router.granted_removeClient_ne_none _ _ hheld
      rw [clientOf, Function.update_apply]
      split
      · simp
      · rw [Function.update_of_ne hne]
        exact hno key hheld
  | removed old clientOf _ _ router =>
      rw [router] at hheld
      obtain ⟨hne, hheld⟩ := Router.granted_removeClient_ne_none _ _ hheld
      rw [clientOf, Function.update_of_ne hne]
      exact hno key hheld

/-- An installing step succeeds, holds the key afterwards and leaves the sessions
alone. -/
theorem step_of_installs {b : Broker} {st : BrokerStep} {conn : Conn} {key : SubscriptionKey}
    {qos : QoS} (hinstalls : b.installs st = some (conn, key, qos)) :
    ∃ b', b.step st = some b' ∧ b'.hub.router.granted key ≠ none ∧
      b'.hub.sessions = b.hub.sessions := by
  have hpersist : ∀ (h : Hub) (id : ClientId) (raw : String) (qos : QoS),
      (h.persistSubscription id raw qos).router = h.router ∧
        (h.persistSubscription id raw qos).sessions = h.sessions := by
    intro h id raw qos
    unfold persistSubscription
    split <;> exact ⟨rfl, rfl⟩
  cases st with
  | subscribe c raw q =>
      obtain ⟨conn', hconn, hrest⟩ := Option.bind_eq_some_iff.mp hinstalls
      obtain ⟨id, hid, hrest⟩ := Option.bind_eq_some_iff.mp hrest
      let r := conn'.subscribeOne b.limit b.hub id raw q
      refine ⟨{ b with hub := r.2.1, conns := b.conns.insert c r.2.2 }, ?_, ?_⟩
      · simp only [step, hconn, Option.bind_eq_bind, Option.bind_some, hid]
        rfl
      · cases hadmits : conn'.admits b.limit raw with
        | some refused => simp [hadmits] at hrest
        | none =>
            simp only [hadmits] at hrest
            simp only [r, Conn.subscribeOne, hadmits]
            cases hshared : SharedSubscription.parse raw with
            | some shared =>
                simp only [hshared, Option.some.injEq, Prod.mk.injEq] at hrest
                obtain ⟨-, rfl, rfl⟩ := hrest
                simp only [Hub.subscribeShared, hpersist, Router.granted_subscribeShared]
                simp
            | none =>
                simp only [hshared] at hrest
                obtain ⟨filter, hfilter, heq⟩ := Option.map_eq_some_iff.mp hrest
                simp only [Prod.mk.injEq] at heq
                obtain ⟨-, rfl, rfl⟩ := heq
                simp only [hfilter, Hub.subscribe, hpersist, Router.granted_subscribe]
                simp
  | accept c peer => cases hinstalls
  | connect c packet auth now => cases hinstalls
  | unsubscribe c raw => cases hinstalls
  | close c => cases hinstalls
  | background a => cases hinstalls

/-! ## Runs -/

/-- No orphan subscription, so the router selects existing clients only and no
share group gives a turn to a client that is gone. -/
structure Routable (b : Broker) : Prop where
  noOrphans : b.hub.NoOrphans
  route : ∀ topic, ∀ target ∈ (b.hub.router.route topic).1,
    ∃ s, b.hub.sessions.byId.lookup target.1 = some s
  turns : ∀ group g topic target, b.hub.router.shared.lookup group = some g →
    g.selected topic = some target → ∃ s, b.hub.sessions.byId.lookup target.1 = some s

theorem Routable.of_noOrphans {b : Broker} (hno : b.hub.NoOrphans) : b.Routable := by
  have hroute : ∀ topic, ∀ target ∈ (b.hub.router.route topic).1,
      ∃ s, b.hub.sessions.byId.lookup target.1 = some s := by
    intro topic target htarget
    obtain ⟨key, hkey, hheld⟩ := Router.exists_granted_of_mem_route htarget
    exact hkey ▸ hno key hheld
  refine ⟨hno, hroute, ?_⟩
  intro group g topic target hgroup hselected
  apply hroute topic target
  simp only [Router.route, Router.sortByClient, List.mem_insertionSort, List.mem_append,
    List.mem_filterMap]
  exact Or.inr ⟨g, AssocMap.mem_values_iff.mpr ⟨group, hgroup⟩, hselected⟩

/-- Over every interleaving of connections from startup on: there is never an
orphan subscription exactly if every SUBSCRIBE that installs one finds the session
of its connection still in the table. -/
theorem routable_iff (storage : Option Storage) (retry : RetryConfig)
    (eventLogMax limit now : Nat) (steps : List BrokerStep) :
    Machine.Always step Routable (new storage retry eventLogMax limit now) steps ↔
      Machine.Meets step SubscribesLive (new storage retry eventLogMax limit now) steps := by
  apply Machine.always_iff_meets fun _ => True
  · exact fun _ _ _ _ _ => trivial
  · intro b st _ hroutable
    constructor
    · intro hlive b' hstep
      exact .of_noOrphans (noOrphans_step hroutable.noOrphans hlive hstep)
    · intro hall conn key qos hinstalls
      obtain ⟨b', hstep, hheld, hsessions⟩ := step_of_installs hinstalls
      rw [← hsessions]
      exact (hall b' hstep).noOrphans key hheld
  · trivial
  · exact .of_noOrphans (noOrphans_new storage retry eventLogMax now)

/-- A clean start of the same client between a connection's CONNECT and its
SUBSCRIBE leaves an orphan, and the end of that connection does not remove it. -/
theorem orphan_after_clean_start :
    ∃ b, Machine.run step (new none ⟨5, 5, 60⟩ 0 100 0)
        [.accept 0 "p", .accept 1 "q",
          .connect 0 ⟨"c", false, 0, none⟩ (some ⟨["#"], ["#"]⟩) 0,
          .connect 1 ⟨"c", true, 0, none⟩ (some ⟨["#"], ["#"]⟩) 0,
          .subscribe 0 "$share/g/t" .atLeastOnce, .close 0] = some b ∧
      b.hub.router.granted ⟨1, some "g", "t"⟩ = some .atLeastOnce ∧
      b.hub.sessions.byId.lookup 1 = none ∧
      (b.hub.router.route "t").1 = [(1, .atLeastOnce)] := by
  refine ⟨_, rfl, ?_⟩
  decide

end Broker

end Relay
