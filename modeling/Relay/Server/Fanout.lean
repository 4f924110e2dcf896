import Relay.Core.Recipients
import Relay.Server.Hub

/-! # Fan-out of a publish

Which deliveries a publish makes to which session, and what one delivery does.
-/

namespace Relay

/-! ## One delivery -/

/-- What one delivery at an effective QoS does to a session: one packet on the
channel of an online session, and one in-flight entry for QoS 1/2. -/
structure Session.Delivered (topic : String) (payload : Bytes) (qos : QoS) (s s' : Session) :
    Prop where
  channel : s'.tx = s.tx.map (· ++ [.publish (s.publishFor topic payload qos false)])
  qos0 : qos = .atMostOnce → s'.inflight = s.inflight ∧ s'.nextId = s.nextId
  qos12 : qos ≠ .atMostOnce → ∃ e, s'.inflight = s.inflight ++ [e] ∧
    e.state.undelivered = some (s.publishFor topic payload qos false) ∧ e.attempts = 1
  frame : s' = { s with tx := s'.tx, inflight := s'.inflight, nextId := s'.nextId }

theorem Session.delivered_received (s : Session) (topic : String) (payload : Bytes) (qos : QoS)
    (now : Nat) (cfg : RetryConfig) :
    Session.Delivered topic payload qos s (s.received topic payload qos false now cfg) where
  channel := rfl
  qos0 := by
    rintro rfl
    simp [received, entriesFor]
  qos12 hqos := by
    cases qos with
    | atMostOnce => exact absurd rfl hqos
    | atLeastOnce => exact ⟨_, rfl, rfl, rfl⟩
    | exactlyOnce => exact ⟨_, rfl, rfl, rfl⟩
  frame := rfl

inductive Session.DeliveredAll (topic : String) (payload : Bytes) :
    List QoS → Session → Session → Prop where
  | nil (s : Session) : DeliveredAll topic payload [] s s
  | cons {qos : QoS} {rest : List QoS} {s s₁ s' : Session}
      (hfirst : Delivered topic payload qos s s₁) (hrest : DeliveredAll topic payload rest s₁ s') :
      DeliveredAll topic payload (qos :: rest) s s'

/-- The counter skips 0, so the next delivery does not panic either. -/
theorem Session.received_nextId_ne_zero {s : Session} (hid : s.nextId ≠ 0) (topic : String)
    (payload : Bytes) (qos : QoS) (retain : Bool) (now : Nat) (cfg : RetryConfig) :
    (s.received topic payload qos retain now cfg).nextId ≠ 0 := by
  simp only [received]
  split
  · exact hid
  · exact Nat.pos_iff_ne_zero.mp (bumpId_pos _)

/-! ## The delivery loop -/

namespace Hub

/-- Every subscription in the router belongs to a session. -/
def NoOrphans (h : Hub) : Prop :=
  ∀ key, h.router.granted key ≠ none → ∃ s, h.sessions.byId.lookup key.client = some s

/-- Packet-id counters are never 0, so no delivery panics. -/
def CountersOk (h : Hub) : Prop := ∀ id s, h.sessions.byId.lookup id = some s → s.nextId ≠ 0

theorem lookup_setSession {h : Hub} {id : ClientId} {s : Session}
    (hlookup : h.sessions.byId.lookup id = some s) (s' : Session) (i : ClientId) :
    (h.setSession id s').sessions.byId.lookup i =
      if i = id then some s' else h.sessions.byId.lookup i := by
  simp only [setSession, AssocMap.lookup_modify]
  split
  next heq =>
    subst heq
    rw [hlookup, Option.map_some]
  · rfl

/-- Delivery to a target with a session succeeds and counts it. -/
theorem deliverTo_eq (topic : String) (payload : Bytes) (msgQos : QoS) (now : Nat) {f : Fanout}
    {target : ClientId × QoS} {s : Session}
    (hlookup : f.hub.sessions.byId.lookup target.1 = some s) (hid : s.nextId ≠ 0) :
    ∃ f', deliverTo topic payload msgQos now f target = some f' ∧ f'.delivered = f.delivered + 1 ∧
      f'.hub = f.hub.setSession target.1
        (s.received topic payload (min msgQos target.2) false now f.hub.retry) := by
  let s' := s.received topic payload (min msgQos target.2) false now f.hub.retry
  let snapshot := if min msgQos target.2 = .atMostOnce then none else f.hub.snapshotInflight s'
  refine ⟨⟨f.delivered + 1, f.toPersist ++ snapshot.toList, f.hub.setSession target.1 s'⟩,
    ?_, rfl, rfl⟩
  simp only [deliverTo, hlookup, Session.deliver_eq, hid, and_false, if_false]
  rfl

/-- The loop makes every delivery of the list, in order. -/
theorem deliverAll_spec (topic : String) (payload : Bytes) (msgQos : QoS) (now : Nat)
    (targets : List (ClientId × QoS)) (f : Fanout)
    (hsessions : ∀ t ∈ targets, ∃ s, f.hub.sessions.byId.lookup t.1 = some s)
    (hids : f.hub.CountersOk) :
    ∃ f', targets.foldlM (deliverTo topic payload msgQos now) f = some f' ∧
      f'.delivered = f.delivered + targets.length ∧
      f'.hub.sessions.byId.keys = f.hub.sessions.byId.keys ∧
      ∀ id s, f.hub.sessions.byId.lookup id = some s →
        ∃ s', f'.hub.sessions.byId.lookup id = some s' ∧ Session.DeliveredAll topic payload
          (((targets.filter fun t => t.1 = id).map Prod.snd).map (min msgQos)) s s' := by
  induction targets generalizing f with
  | nil => exact ⟨f, rfl, rfl, rfl, fun id s hs => ⟨s, hs, .nil s⟩⟩
  | cons target rest ih =>
      obtain ⟨t, ht⟩ := hsessions target List.mem_cons_self
      obtain ⟨f₁, hf₁, hcount, hhub⟩ := deliverTo_eq topic payload msgQos now ht (hids _ t ht)
      -- a client that occurs again meets the session its first delivery left
      have hlookup := fun i => hhub ▸ lookup_setSession ht
        (t.received topic payload (min msgQos target.2) false now f.hub.retry) i
      obtain ⟨f', hf', hcount', hkeys, hall⟩ := ih f₁
        (by
          intro u hu
          rw [hlookup]
          split
          · exact ⟨_, rfl⟩
          · exact hsessions u (List.mem_cons_of_mem _ hu))
        (by
          intro id s hs
          rw [hlookup] at hs
          split at hs
          · cases hs
            exact Session.received_nextId_ne_zero (hids _ t ht) _ _ _ _ _ _
          · exact hids id s hs)
      refine ⟨f', ?_, ?_, ?_, ?_⟩
      · rw [List.foldlM_cons]
        exact Option.bind_eq_some_iff.mpr ⟨f₁, hf₁, hf'⟩
      · rw [hcount', hcount, List.length_cons]
        omega
      · rw [hkeys, hhub]
        exact AssocMap.keys_modify ..
      · intro id s hs
        by_cases hid : target.1 = id
        · subst hid
          rw [ht] at hs
          cases hs
          obtain ⟨s', hs', hrest⟩ := hall target.1 _ (by rw [hlookup, if_pos rfl])
          refine ⟨s', hs', ?_⟩
          rw [List.filter_cons_of_pos (by simp), List.map_cons, List.map_cons]
          exact .cons (Session.delivered_received ..) hrest
        · obtain ⟨s', hs', hrest⟩ := hall id s (by rw [hlookup, if_neg (Ne.symm hid), hs])
          refine ⟨s', hs', ?_⟩
          rw [List.filter_cons_of_neg (by simpa using hid)]
          exact hrest

/-! ## Publish -/

theorem sessions_writeAll (h : Hub) (snapshots : List (String × Bytes)) :
    (h.writeAll snapshots).sessions = h.sessions := by
  induction snapshots generalizing h with
  | nil => rfl
  | cons snapshot rest ih => exact ih (h.writeInflight snapshot)

theorem sessions_journal (h : Hub) (topic : String) (payload : Bytes) (qos : QoS) (ts : Nat) :
    (h.journal topic payload qos ts).sessions = h.sessions := by
  unfold journal
  split <;> rfl

theorem router_journal (h : Hub) (topic : String) (payload : Bytes) (qos : QoS) (ts : Nat) :
    (h.journal topic payload qos ts).router = h.router := by
  unfold journal
  split <;> rfl

/-- Retaining and journalling touch no session. -/
theorem sessions_announce (h : Hub) (topic : String) (payload : Bytes) (qos : QoS) (retain : Bool)
    (ts : Nat) : (h.announce topic payload qos retain ts).sessions = h.sessions := by
  rw [announce, sessions_journal]
  split <;> rfl

theorem router_announce (h : Hub) (topic : String) (payload : Bytes) (qos : QoS) (retain : Bool)
    (ts : Nat) : (h.announce topic payload qos retain ts).router = h.router := by
  rw [announce, router_journal]
  split <;> rfl

/-- An empty route needs no case of its own. -/
theorem fanOut_eq (h : Hub) (topic : String) (payload : Bytes) (msgQos : QoS) (now : Nat) :
    h.fanOut topic payload msgQos now =
      ((h.routeTopic topic).2.deliverAll (h.routeTopic topic).1 topic payload msgQos now).map
        fun f => (f.delivered, f.hub.writeAll f.toPersist) := by
  simp only [fanOut]
  split
  next hempty => simp [hempty, deliverAll, writeAll]
  · rfl

/-- Publishing in a hub without orphans: every session receives its own normal
delivery and those of the share groups that selected it, each at the smaller of
the published and the granted QoS; other sessions are unchanged, and the count
returned is that of all deliveries. -/
theorem publish_deliveries (h : Hub) (topic : String) (payload : Bytes) (msgQos : QoS)
    (retain : Bool) (clock : Clock) (horphans : h.NoOrphans) (hids : h.CountersOk) :
    ∃ n h', h.publish topic payload msgQos retain clock = some (n, h') ∧
      (∀ id, h.sessions.byId.lookup id = none → h'.sessions.byId.lookup id = none) ∧
      (∀ id s, h.sessions.byId.lookup id = some s →
        ∃ s', h'.sessions.byId.lookup id = some s' ∧ Session.DeliveredAll topic payload
          ((h.router.grantedTo topic id).map (min msgQos)) s s') ∧
      n = (h.sessions.byId.keys.map fun id => (h.router.grantedTo topic id).length).sum := by
  -- announcing changes neither sessions nor routes
  have hsessions := h.sessions_announce topic payload msgQos retain clock.ts
  have hrouter := h.router_announce topic payload msgQos retain clock.ts
  obtain ⟨f, hf, hcount, hkeys, hall⟩ := deliverAll_spec topic payload msgQos clock.now
    (h.router.route topic).1
    ⟨0, [], ((h.announce topic payload msgQos retain clock.ts).routeTopic topic).2⟩
    (by
      intro t ht
      obtain ⟨key, hkey, hgranted⟩ := Router.exists_granted_of_mem_route ht
      simp only [routeTopic, hsessions]
      exact hkey ▸ horphans key hgranted)
    (by
      intro id s hs
      simp only [routeTopic, hsessions] at hs
      exact hids id s hs)
  simp only [routeTopic, hsessions] at hkeys hall
  refine ⟨f.delivered, f.hub.writeAll f.toPersist, ?_, ?_, ?_, ?_⟩
  · have htargets : ((h.announce topic payload msgQos retain clock.ts).routeTopic topic).1 =
        (h.router.route topic).1 := by simp only [routeTopic, hrouter]
    rw [publish, fanOut_eq, deliverAll, htargets, hf, Option.map_some]
  · intro id hnone
    rw [sessions_writeAll, AList.lookup_eq_none, AList.mem_keys, hkeys, ← AList.mem_keys]
    exact AList.lookup_eq_none.mp hnone
  · intro id s hs
    rw [sessions_writeAll, ← Router.filter_route]
    exact hall id s hs
  · have hmem : ∀ t ∈ (h.router.route topic).1, t.1 ∈ h.sessions.byId.keys := by
      intro t ht
      obtain ⟨key, hkey, hgranted⟩ := Router.exists_granted_of_mem_route ht
      exact AssocMap.mem_keys_iff.mpr (hkey ▸ horphans key hgranted)
    rw [hcount, Nat.zero_add, AssocList.length_eq_sum_filter_key Prod.fst
      h.sessions.byId.keys_nodup _ hmem]
    simp only [← Router.filter_route, List.length_map]

/-- It is enough to look at the stored keys. -/
theorem noOrphans_of_keys {h : Hub}
    (hkeys : ∀ key ∈ h.router.keys, (h.sessions.byId.lookup key.client).isSome) : h.NoOrphans :=
  fun key hgranted => Option.isSome_iff_exists.mp
    (hkeys key ((Router.granted_ne_none_iff h.router key).mp hgranted))

theorem countersOk_of_values {h : Hub} (hids : ∀ s ∈ h.sessions.byId.values, s.nextId ≠ 0) :
    h.CountersOk :=
  fun id s hs => hids s (AssocMap.mem_values_iff.mpr ⟨id, hs⟩)

def fanoutSample : Hub :=
  { nextId := 3
    router := ((Router.new.subscribe 1 ⟨"a/+", by decide⟩ .atLeastOnce).subscribeShared "g" 1
      ⟨"a/b", by decide⟩ .atMostOnce).subscribeShared "g" 2 ⟨"a/#", by decide⟩ .exactlyOnce
    retained := RetainedStore.new
    sessions :=
      { byId := (AList.insert 1 (Session.new "c1" (some []) 0 1) ∅).insert 2
          (Session.new "c2" none 60 2)
        idOf := (AList.insert "c1" 1 ∅).insert "c2" 2
        generation := 2 }
    disk := none
    retry := ⟨5, 5, 60⟩
    eventLogMax := 0
    timers := [] }

/-- The group's turn is at its first member, which is also a normal subscriber. -/
theorem publish_deliveries_sample :
    fanoutSample.router.grantedTo "a/b" 1 = [.atLeastOnce, .atMostOnce] ∧
      fanoutSample.router.grantedTo "a/b" 2 = [] ∧
      ∃ n h', fanoutSample.publish "a/b" [7] .exactlyOnce false ⟨0, 0⟩ = some (n, h') ∧ n = 2 := by
  refine ⟨by decide, by decide, ?_⟩
  obtain ⟨n, h', hpublish, _, _, hcount⟩ := publish_deliveries fanoutSample "a/b" [7] .exactlyOnce
    false ⟨0, 0⟩ (noOrphans_of_keys (by decide)) (countersOk_of_values (by decide))
  exact ⟨n, h', hpublish, hcount.trans (by decide)⟩

end Hub

end Relay
