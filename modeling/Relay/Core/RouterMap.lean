import Relay.Core.Router

/-! # The router as a finite map

Abstractly a router is a map from subscription keys to granted QoS. The two
nested representations are related to it through the lists `subsOf` and
`membersOf`: each operation changes one of these lists by an update or a
filter, and the abstract map follows.
-/

namespace Relay

/-- What identifies a subscription: the client, the share group if any, and the
filter string. -/
structure SubscriptionKey where
  client : ClientId
  group : Option String
  filter : String
deriving DecidableEq

namespace Router

def subsOf (r : Router) (client : ClientId) : List Sub := (r.normal.lookup client).getD []

def membersOf (r : Router) (group : String) : List (ClientId × Sub) :=
  ((r.shared.lookup group).map SharedGroup.members).getD []

def granted (r : Router) (key : SubscriptionKey) : Option QoS :=
  match key.group with
  | none => ((r.subsOf key.client).find? fun s => subKey s = key.filter).map Sub.qos
  | some group =>
      ((r.membersOf group).find? fun m => memberKey m = (key.client, key.filter)).map
        fun m => m.2.qos

def keys (r : Router) : List SubscriptionKey :=
  (r.normal.entries.flatMap fun e => e.2.map fun s => ⟨e.1, none, subKey s⟩) ++
    r.shared.entries.flatMap fun e =>
      e.2.members.map fun m => ⟨m.1, some e.1, (memberKey m).2⟩

/-- No subscription is stored twice, and no empty list or group is kept. -/
structure WF (r : Router) : Prop where
  subs_distinct : ∀ client, ((r.subsOf client).map subKey).Nodup
  members_distinct : ∀ group, ((r.membersOf group).map memberKey).Nodup
  subs_nonempty : ∀ client, r.normal.lookup client ≠ some []
  members_nonempty : ∀ group g, r.shared.lookup group = some g → g.members ≠ []

/-! ## The operations on the two families of lists -/

section Lists

variable (r : Router) (client : ClientId) (filter : TopicFilter) (qos : QoS)

/-- The same filter again takes the place of the older subscription. -/
theorem subsOf_subscribe (c : ClientId) :
    (r.subscribe client filter qos).subsOf c =
      if c = client then
        AssocList.upsert subKey ⟨filter, qos⟩ (fun s => { s with qos := qos }) (r.subsOf client)
      else r.subsOf c := by
  simp only [subsOf, subscribe, AssocMap.lookup_insert]
  split <;> rfl

@[simp] theorem membersOf_subscribe (group : String) :
    (r.subscribe client filter qos).membersOf group = r.membersOf group := rfl

@[simp] theorem subsOf_subscribeShared (group : String) (c : ClientId) :
    (r.subscribeShared group client filter qos).subsOf c = r.subsOf c := rfl

theorem membersOf_subscribeShared (group g : String) :
    (r.subscribeShared group client filter qos).membersOf g =
      if g = group then
        AssocList.upsert memberKey (client, ⟨filter, qos⟩)
          (fun m => (m.1, { m.2 with qos := qos })) (r.membersOf group)
      else r.membersOf g := by
  simp only [membersOf, subscribeShared, AssocMap.lookup_insert]
  split
  next =>
    cases r.shared.lookup group with
    | none => rfl
    | some existing => rfl
  next => rfl

theorem subsOf_unsubscribe (raw : String) (c : ClientId) :
    (r.unsubscribe client raw).1.subsOf c =
      if c = client then (r.subsOf client).filter fun s => s.filter.asStr ≠ raw
      else r.subsOf c := by
  unfold unsubscribe
  cases hlookup : r.normal.lookup client with
  | none =>
      by_cases h : c = client
      · subst c
        simp [subsOf, hlookup]
      · simp [h]
  | some subs =>
      -- an emptied list is dropped with its client, which reads as empty again
      by_cases hkept : (subs.filter fun s => s.filter.asStr ≠ raw) = []
      · simp only [hkept, if_true, subsOf, AssocMap.lookup_erase, hlookup, Option.getD_some]
        split <;> simp
      · simp only [hkept, if_false, subsOf, AssocMap.lookup_insert, hlookup, Option.getD_some]
        split <;> simp

@[simp] theorem membersOf_unsubscribe (raw group : String) :
    (r.unsubscribe client raw).1.membersOf group = r.membersOf group := by
  unfold unsubscribe
  split
  · rfl
  · dsimp only
    split <;> rfl

@[simp] theorem subsOf_unsubscribeShared (group raw : String) (c : ClientId) :
    (r.unsubscribeShared group client raw).1.subsOf c = r.subsOf c := by
  unfold unsubscribeShared
  split
  · rfl
  · dsimp only
    split <;> rfl

/-- Leaving removes the one membership; a group that becomes empty is as good as none. -/
theorem membersOf_unsubscribeShared (group raw g : String) :
    (r.unsubscribeShared group client raw).1.membersOf g =
      if g = group then
        (r.membersOf group).filter fun m => ¬ (m.1 = client ∧ m.2.filter.asStr = raw)
      else r.membersOf g := by
  unfold unsubscribeShared
  cases hlookup : r.shared.lookup group with
  | none =>
      by_cases h : g = group
      · subst g
        simp [membersOf, hlookup]
      · simp [h]
  | some existing =>
      by_cases hkept : (existing.members.filter
          fun m => ¬ (m.1 = client ∧ m.2.filter.asStr = raw)) = []
      · simp only [hkept, if_true, membersOf, AssocMap.lookup_erase, hlookup, Option.map_some,
          Option.getD_some]
        split <;> simp
      · simp only [hkept, if_false, membersOf, AssocMap.lookup_insert, hlookup, Option.map_some,
          Option.getD_some]
        split <;> simp

theorem subsOf_removeClient (c : ClientId) :
    (r.removeClient client).subsOf c = if c = client then [] else r.subsOf c := by
  simp only [subsOf, removeClient, AssocMap.lookup_erase]
  split <;> rfl

/-- A removed client is in no group. -/
theorem membersOf_removeClient (group : String) :
    (r.removeClient client).membersOf group =
      (r.membersOf group).filter fun m => m.1 ≠ client := by
  simp only [membersOf, removeClient, AssocMap.lookup_retain, AssocMap.lookup_mapVal]
  cases r.shared.lookup group with
  | none => rfl
  | some existing =>
      simp only [Option.map_some, Option.getD_some, Option.filter_some]
      -- a group left without members is not retained
      generalize (existing.members.filter fun m => m.1 ≠ client) = kept
      cases kept <;> rfl

@[simp] theorem subsOf_route (topic : String) (c : ClientId) :
    (r.route topic).2.subsOf c = r.subsOf c := rfl

@[simp] theorem membersOf_route (topic group : String) :
    (r.route topic).2.membersOf group = r.membersOf group := by
  simp only [membersOf, route, AssocMap.lookup_mapVal]
  cases r.shared.lookup group with
  | none => rfl
  | some existing =>
      simp only [Option.map_some, Option.getD_some, SharedGroup.advance]
      split <;> rfl

end Lists

/-! ## The abstract operations -/

section Granted

variable (r : Router) (client : ClientId) (filter : TopicFilter) (qos : QoS)

/-- On the abstract map, subscribing is an update at one key. -/
theorem granted_subscribe :
    (r.subscribe client filter qos).granted =
      Function.update r.granted ⟨client, none, filter.asStr⟩ (some qos) := by
  funext ⟨c, group, raw⟩
  cases group with
  | some g =>
      rw [Function.update_of_ne (by simp)]
      rfl
  | none =>
      simp only [granted, subsOf_subscribe, Function.update_apply, SubscriptionKey.mk.injEq]
      by_cases hc : c = client
      · subst c
        simp only [if_true, true_and]
        exact AssocList.map_find?_upsert Sub.qos (by intro; rfl) (by intro; rfl) _ raw
      · simp [hc]

/-- Joining a group is the same update at a key with a group. -/
theorem granted_subscribeShared (group : String) :
    (r.subscribeShared group client filter qos).granted =
      Function.update r.granted ⟨client, some group, filter.asStr⟩ (some qos) := by
  funext ⟨c, group', raw⟩
  cases group' with
  | none =>
      rw [Function.update_of_ne (by simp)]
      rfl
  | some g =>
      simp only [granted, membersOf_subscribeShared, Function.update_apply,
        SubscriptionKey.mk.injEq, Option.some.injEq]
      by_cases hg : g = group
      · subst g
        simp only [if_true, true_and]
        refine (AssocList.map_find?_upsert (fun m : ClientId × Sub => m.2.qos)
          (by intro; rfl) (by intro; rfl) _ (c, raw)).trans ?_
        simp [memberKey]
      · simp [hg]

/-- Unsubscribing clears one key, present or not. -/
theorem granted_unsubscribe (raw : String) :
    (r.unsubscribe client raw).1.granted =
      Function.update r.granted ⟨client, none, raw⟩ none := by
  funext ⟨c, group, raw'⟩
  cases group with
  | some g =>
      rw [Function.update_of_ne (by simp)]
      simp [granted]
  | none =>
      simp only [granted, subsOf_unsubscribe, Function.update_apply, SubscriptionKey.mk.injEq]
      by_cases hc : c = client
      · subst c
        simp only [if_true, true_and]
        refine (congrArg (Option.map Sub.qos)
          (AssocList.find?_filter_key subKey (r.subsOf client) raw' raw)).trans ?_
        split <;> rfl
      · simp [hc]

/-- Leaving a group clears one key, present or not. -/
theorem granted_unsubscribeShared (group raw : String) :
    (r.unsubscribeShared group client raw).1.granted =
      Function.update r.granted ⟨client, some group, raw⟩ none := by
  funext ⟨c, group', raw'⟩
  cases group' with
  | none =>
      rw [Function.update_of_ne (by simp)]
      simp [granted]
  | some g =>
      simp only [granted, membersOf_unsubscribeShared, Function.update_apply,
        SubscriptionKey.mk.injEq, Option.some.injEq]
      by_cases hg : g = group
      · subst g
        have hfind := AssocList.find?_filter_key memberKey (r.membersOf group) (c, raw') (client, raw)
        simp only [memberKey, ne_eq, Prod.mk.injEq] at hfind
        simp only [if_true, true_and, memberKey, Prod.mk.injEq, hfind]
        split <;> rfl
      · simp [hg]

/-- All keys of the client are cleared, those of its groups included. -/
theorem granted_removeClient :
    (r.removeClient client).granted =
      fun key => if key.client = client then none else r.granted key := by
  funext ⟨c, group, raw⟩
  cases group with
  | none =>
      simp only [granted, subsOf_removeClient]
      by_cases hc : c = client
      · simp [hc]
      · simp [hc]
  | some g =>
      simp only [granted, membersOf_removeClient, List.find?_filter]
      by_cases hc : c = client
      · subst c
        rw [if_pos rfl, List.find?_eq_none.mpr, Option.map_none]
        intro m _
        simp only [memberKey, Prod.mk.injEq, ne_eq, decide_eq_true_eq]
        exact fun h => h.1 h.2.1
      · rw [if_neg hc]
        congr 2
        funext m
        by_cases hm : m.1 = c
        · simp [memberKey, hm, hc]
        · simp [memberKey, hm]

/-- What is held after removing a client was held before, by another client. -/
theorem granted_removeClient_ne_none {key : SubscriptionKey}
    (hheld : (r.removeClient client).granted key ≠ none) :
    key.client ≠ client ∧ r.granted key ≠ none := by
  simp only [granted_removeClient] at hheld
  split at hheld
  · exact absurd rfl hheld
  next hne => exact ⟨hne, hheld⟩

theorem granted_new : new.granted = fun _ => none := by
  funext ⟨client, group, raw⟩
  cases group <;> simp [granted, subsOf, membersOf, new]

/-- Routing moves cursors and no subscription. -/
theorem granted_route (topic : String) : (r.route topic).2.granted = r.granted := by
  funext ⟨c, group, raw⟩
  cases group <;> simp [granted]

end Granted

/-! ## Well-formedness -/

section WellFormed

variable {r : Router} (client : ClientId) (filter : TopicFilter) (qos : QoS)

theorem wf_new : WF new where
  subs_distinct client := by simp [subsOf, new]
  members_distinct group := by simp [membersOf, new]
  subs_nonempty client := by simp [new]
  members_nonempty group g h := by simp [new] at h

/-- A second subscription to a filter is not stored beside the first. -/
theorem WF.subscribe (h : r.WF) : (r.subscribe client filter qos).WF where
  subs_distinct c := by
    rw [subsOf_subscribe]
    split
    next => exact AssocList.nodup_upsert (by intro; rfl) (h.subs_distinct client)
    next => exact h.subs_distinct c
  members_distinct := h.members_distinct
  subs_nonempty c := by
    simp only [Router.subscribe, AssocMap.lookup_insert]
    split
    next => simpa using AssocList.upsert_ne_nil _
    next => exact h.subs_nonempty c
  members_nonempty := h.members_nonempty

theorem WF.subscribeShared (h : r.WF) (group : String) :
    (r.subscribeShared group client filter qos).WF where
  subs_distinct := h.subs_distinct
  members_distinct g := by
    rw [membersOf_subscribeShared]
    split
    next => exact AssocList.nodup_upsert (by intro; rfl) (h.members_distinct group)
    next => exact h.members_distinct g
  subs_nonempty := h.subs_nonempty
  members_nonempty g existing := by
    simp only [Router.subscribeShared, AssocMap.lookup_insert]
    split
    next =>
      intro heq
      cases heq
      exact AssocList.upsert_ne_nil _
    next => exact h.members_nonempty g existing

/-- The last subscription of a client takes its list along. -/
theorem WF.unsubscribe (h : r.WF) (raw : String) : (r.unsubscribe client raw).1.WF where
  subs_distinct c := by
    rw [subsOf_unsubscribe]
    split
    next => exact (h.subs_distinct client).sublist (List.filter_sublist.map subKey)
    next => exact h.subs_distinct c
  members_distinct group := by
    rw [membersOf_unsubscribe]
    exact h.members_distinct group
  subs_nonempty c := by
    unfold Router.unsubscribe
    split
    next => exact h.subs_nonempty c
    next subs _ =>
      dsimp only
      split
      next =>
        simp only [AssocMap.lookup_erase]
        split
        next => exact fun heq => nomatch heq
        next => exact h.subs_nonempty c
      next hkept =>
        simp only [AssocMap.lookup_insert]
        split
        next => exact fun heq => hkept (Option.some.inj heq)
        next => exact h.subs_nonempty c
  members_nonempty g existing := by
    unfold Router.unsubscribe
    split
    next => exact h.members_nonempty g existing
    next =>
      dsimp only
      split <;> exact h.members_nonempty g existing

/-- The last member of a group takes the group along. -/
theorem WF.unsubscribeShared (h : r.WF) (group raw : String) :
    (r.unsubscribeShared group client raw).1.WF where
  subs_distinct c := by
    rw [subsOf_unsubscribeShared]
    exact h.subs_distinct c
  members_distinct g := by
    rw [membersOf_unsubscribeShared]
    split
    next => exact (h.members_distinct group).sublist (List.filter_sublist.map memberKey)
    next => exact h.members_distinct g
  subs_nonempty c := by
    unfold Router.unsubscribeShared
    split
    next => exact h.subs_nonempty c
    next =>
      dsimp only
      split <;> exact h.subs_nonempty c
  members_nonempty g existing := by
    unfold Router.unsubscribeShared
    split
    next => exact h.members_nonempty g existing
    next =>
      dsimp only
      split
      next =>
        simp only [AssocMap.lookup_erase]
        split
        next => exact fun heq => nomatch heq
        next => exact h.members_nonempty g existing
      next hkept =>
        simp only [AssocMap.lookup_insert]
        split
        next =>
          intro heq
          cases heq
          exact hkept
        next => exact h.members_nonempty g existing

/-- Groups that lose their last member are dropped. -/
theorem WF.removeClient (h : r.WF) : (r.removeClient client).WF where
  subs_distinct c := by
    rw [subsOf_removeClient]
    split
    next => exact List.nodup_nil
    next => exact h.subs_distinct c
  members_distinct group := by
    rw [membersOf_removeClient]
    exact (h.members_distinct group).sublist (List.filter_sublist.map memberKey)
  subs_nonempty c := by
    simp only [Router.removeClient, AssocMap.lookup_erase]
    split
    next => exact fun heq => nomatch heq
    next => exact h.subs_nonempty c
  members_nonempty group g := by
    simp only [Router.removeClient, AssocMap.lookup_retain, Option.filter_eq_some_iff]
    rintro ⟨_, hkept⟩ hnil
    simp [hnil] at hkept

theorem WF.route (h : r.WF) (topic : String) : (r.route topic).2.WF where
  subs_distinct := h.subs_distinct
  members_distinct group := by
    rw [membersOf_route]
    exact h.members_distinct group
  subs_nonempty := h.subs_nonempty
  members_nonempty group g := by
    simp only [Router.route, AssocMap.lookup_mapVal, Option.map_eq_some_iff]
    rintro ⟨existing, hexisting, rfl⟩
    unfold SharedGroup.advance
    split <;> exact h.members_nonempty group existing hexisting

end WellFormed

/-! ## Keys and their number -/

/-- A key is granted something exactly when it is stored. -/
theorem granted_ne_none_iff (r : Router) (key : SubscriptionKey) :
    r.granted key ≠ none ↔ key ∈ r.keys := by
  obtain ⟨client, group, raw⟩ := key
  simp only [keys, List.mem_append, List.mem_flatMap, List.mem_map, SubscriptionKey.mk.injEq]
  cases group with
  | none =>
      simp only [granted, subsOf, ne_eq, Option.map_eq_none_iff, List.find?_eq_none,
        decide_eq_true_eq, not_forall, not_not, reduceCtorEq, and_false, false_and,
        exists_false, or_false, true_and, exists_prop]
      constructor
      · rintro ⟨s, hs, hraw⟩
        cases hlookup : r.normal.lookup client with
        | none => simp [hlookup] at hs
        | some subs =>
            rw [hlookup] at hs
            exact ⟨⟨client, subs⟩, AssocMap.mem_entries_iff.mpr hlookup, s, hs, rfl, hraw⟩
      · rintro ⟨⟨c, subs⟩, hmem, s, hs, rfl, hraw⟩
        refine ⟨s, ?_, hraw⟩
        rw [AssocMap.mem_entries_iff.mp hmem]
        exact hs
  | some group =>
      simp only [granted, membersOf, ne_eq, Option.map_eq_none_iff, List.find?_eq_none,
        decide_eq_true_eq, not_forall, not_not, reduceCtorEq, and_false, false_and,
        exists_false, false_or, exists_prop, Option.some.injEq]
      constructor
      · rintro ⟨m, hm, hkey⟩
        cases hlookup : r.shared.lookup group with
        | none => simp [hlookup] at hm
        | some g =>
            rw [hlookup] at hm
            simp only [memberKey, Prod.mk.injEq] at hkey ⊢
            exact ⟨⟨group, g⟩, AssocMap.mem_entries_iff.mpr hlookup, m, hm, hkey.1, rfl, hkey.2⟩
      · rintro ⟨⟨g, existing⟩, hmem, m, hm, rfl, rfl, rfl⟩
        refine ⟨m, ?_, rfl⟩
        rw [AssocMap.mem_entries_iff.mp hmem]
        exact hm

/-- The count that is reported counts keys. -/
theorem length_keys (r : Router) : r.keys.length = r.subscriptionCount := by
  simp only [keys, subscriptionCount, AssocMap.values, List.length_append, List.length_flatMap,
    List.length_map, List.map_map]
  rfl

/-- In a well-formed router that count has no repetitions. -/
theorem WF.nodup_keys {r : Router} (h : r.WF) : r.keys.Nodup := by
  refine List.nodup_append.mpr ⟨?_, ?_, ?_⟩
  · refine List.nodup_flatMap.mpr ⟨?_, ?_⟩
    · intro e he
      have hdistinct := h.subs_distinct e.1
      rw [subsOf, AssocMap.mem_entries_iff.mp he, Option.getD_some] at hdistinct
      refine List.Nodup.of_map SubscriptionKey.filter ?_
      rwa [List.map_map]
    · refine (List.nodupKeys_iff_pairwise.mp r.normal.nodupKeys).imp ?_
      intro a b hne key ha hb
      obtain ⟨_, _, rfl⟩ := List.mem_map.mp ha
      obtain ⟨_, _, heq⟩ := List.mem_map.mp hb
      exact hne (congrArg SubscriptionKey.client heq).symm
  · refine List.nodup_flatMap.mpr ⟨?_, ?_⟩
    · intro e he
      have hdistinct := h.members_distinct e.1
      rw [membersOf, AssocMap.mem_entries_iff.mp he] at hdistinct
      refine List.Nodup.of_map (fun key => (key.client, key.filter)) ?_
      rw [List.map_map]
      exact hdistinct
    · refine (List.nodupKeys_iff_pairwise.mp r.shared.nodupKeys).imp ?_
      intro a b hne key ha hb
      obtain ⟨_, _, rfl⟩ := List.mem_map.mp ha
      obtain ⟨_, _, heq⟩ := List.mem_map.mp hb
      exact hne (Option.some.inj (congrArg SubscriptionKey.group heq)).symm
  · -- normal keys have no group, shared keys have one
    intro a ha b hb heq
    obtain ⟨_, _, ha⟩ := List.mem_flatMap.mp ha
    obtain ⟨_, _, hb⟩ := List.mem_flatMap.mp hb
    obtain ⟨_, _, rfl⟩ := List.mem_map.mp ha
    obtain ⟨_, _, rfl⟩ := List.mem_map.mp hb
    exact nomatch congrArg SubscriptionKey.group heq

/-! ## Reported removals -/

/-- The flag says whether the abstract map had the key. -/
theorem unsubscribe_reports (r : Router) (client : ClientId) (raw : String) :
    (r.unsubscribe client raw).2 = (r.granted ⟨client, none, raw⟩).isSome := by
  simp only [unsubscribe, granted, subsOf]
  cases r.normal.lookup client with
  | none => rfl
  | some subs =>
      simp only [Option.getD_some, Option.isSome_map, apply_ite Prod.snd, ite_self]
      apply AssocList.length_filter_bne
      intro s
      by_cases h : s.filter.asStr = raw <;> simp [subKey, h]

theorem unsubscribeShared_reports (r : Router) (group : String) (client : ClientId)
    (raw : String) :
    (r.unsubscribeShared group client raw).2 = (r.granted ⟨client, some group, raw⟩).isSome := by
  simp only [unsubscribeShared, granted, membersOf]
  cases r.shared.lookup group with
  | none => rfl
  | some g =>
      simp only [Option.map_some, Option.getD_some, Option.isSome_map, apply_ite Prod.snd,
        ite_self]
      apply AssocList.length_filter_bne
      intro m
      by_cases h : m.1 = client ∧ m.2.filter.asStr = raw <;> simp [memberKey, h]

end Router

/-! ## Runs -/

/-- The calls a router serves. -/
inductive RouterOp where
  | subscribe (client : ClientId) (filter : TopicFilter) (qos : QoS)
  | subscribeShared (group : String) (client : ClientId) (filter : TopicFilter) (qos : QoS)
  | unsubscribe (client : ClientId) (filter : String)
  | unsubscribeShared (group : String) (client : ClientId) (filter : String)
  | removeClient (client : ClientId)
  | route (topic : String)

namespace RouterOp

def apply (r : Router) : RouterOp → Router
  | subscribe client filter qos => r.subscribe client filter qos
  | subscribeShared group client filter qos => r.subscribeShared group client filter qos
  | unsubscribe client filter => (r.unsubscribe client filter).1
  | unsubscribeShared group client filter => (r.unsubscribeShared group client filter).1
  | removeClient client => r.removeClient client
  | route topic => (r.route topic).2

def spec (m : SubscriptionKey → Option QoS) : RouterOp → SubscriptionKey → Option QoS
  | subscribe client filter qos => Function.update m ⟨client, none, filter.asStr⟩ (some qos)
  | subscribeShared group client filter qos =>
      Function.update m ⟨client, some group, filter.asStr⟩ (some qos)
  | unsubscribe client filter => Function.update m ⟨client, none, filter⟩ none
  | unsubscribeShared group client filter => Function.update m ⟨client, some group, filter⟩ none
  | removeClient client => fun key => if key.client = client then none else m key
  | route _ => m

/-- Each call does on the stored lists what it is specified to do on the map. -/
theorem granted_apply (r : Router) (op : RouterOp) : (op.apply r).granted = op.spec r.granted := by
  cases op with
  | subscribe client filter qos => exact r.granted_subscribe client filter qos
  | subscribeShared group client filter qos =>
      exact r.granted_subscribeShared client filter qos group
  | unsubscribe client filter => exact r.granted_unsubscribe client filter
  | unsubscribeShared group client filter => exact r.granted_unsubscribeShared client group filter
  | removeClient client => exact r.granted_removeClient client
  | route topic => exact r.granted_route topic

/-- Each call keeps the router well formed. -/
theorem wf_apply {r : Router} (h : r.WF) (op : RouterOp) : (op.apply r).WF := by
  cases op with
  | subscribe client filter qos => exact h.subscribe client filter qos
  | subscribeShared group client filter qos => exact h.subscribeShared client filter qos group
  | unsubscribe client filter => exact h.unsubscribe client filter
  | unsubscribeShared group client filter => exact h.unsubscribeShared client group filter
  | removeClient client => exact h.removeClient client
  | route topic => exact h.route topic

end RouterOp

namespace Router

def run (ops : List RouterOp) : Router := ops.foldl RouterOp.apply new

theorem wf_foldl {r : Router} (h : r.WF) (ops : List RouterOp) :
    (ops.foldl RouterOp.apply r).WF := by
  induction ops generalizing r with
  | nil => exact h
  | cons op rest ih => exact ih (RouterOp.wf_apply h op)

theorem granted_foldl (r : Router) (ops : List RouterOp) :
    (ops.foldl RouterOp.apply r).granted = ops.foldl RouterOp.spec r.granted := by
  induction ops generalizing r with
  | nil => rfl
  | cons op rest ih => rw [List.foldl_cons, List.foldl_cons, ih, RouterOp.granted_apply]

/-- After any sequence of calls the router holds the finite map that the same
calls build abstractly, reports removals truthfully, counts its keys, stores no
key twice and keeps no empty list or group. -/
theorem run_refines (ops : List RouterOp) :
    (run ops).granted = ops.foldl RouterOp.spec (fun _ => none) ∧
      (∀ client raw, ((run ops).unsubscribe client raw).2 =
        ((run ops).granted ⟨client, none, raw⟩).isSome) ∧
      (∀ group client raw, ((run ops).unsubscribeShared group client raw).2 =
        ((run ops).granted ⟨client, some group, raw⟩).isSome) ∧
      {key | (run ops).granted key ≠ none}.Finite ∧
      (run ops).subscriptionCount = {key | (run ops).granted key ≠ none}.ncard ∧
      (run ops).keys.Nodup ∧
      (∀ key, key ∈ (run ops).keys ↔ (run ops).granted key ≠ none) ∧
      (∀ client, (run ops).normal.lookup client ≠ some []) ∧
      (∀ group g, (run ops).shared.lookup group = some g → g.members ≠ []) := by
  have hwf : (run ops).WF := wf_foldl wf_new ops
  have hkeys : {key | (run ops).granted key ≠ none} = ((run ops).keys.toFinset : Set _) := by
    ext key
    simp [granted_ne_none_iff]
  refine ⟨?_, unsubscribe_reports _, unsubscribeShared_reports _, ?_, ?_, hwf.nodup_keys, ?_,
    hwf.subs_nonempty, hwf.members_nonempty⟩
  · rw [run, granted_foldl, granted_new]
  · rw [hkeys]
    exact Finset.finite_toSet _
  · rw [hkeys, Set.ncard_coe_finset, List.toFinset_card_of_nodup hwf.nodup_keys, length_keys]
  · exact fun key => (granted_ne_none_iff _ key).symm

end Router

end Relay
