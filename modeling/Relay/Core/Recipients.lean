import Relay.Core.RoundRobin

/-! # Recipients of a topic

The route is computed client by client, group by group and then sorted by client.
Seen from one client it is its own normal delivery followed by the share groups whose
turn fell on it. The sort keeps the entries of one client in the order in which the
hash maps were visited, so the route is the same for every order exactly when no client
has the turn in two groups at different QoS.
-/

namespace Relay

/-! ## The route seen from one client -/

namespace Router

/-- Granted levels of the deliveries a topic makes to a client: the maximum over
its matching normal filters, and one for every share group that selects it. -/
def grantedTo (r : Router) (topic : String) (client : ClientId) : List QoS :=
  (maxGranted (r.subsOf client) topic).toList ++
    ((r.shared.values.filterMap fun g => g.selected topic).filter fun t => t.1 = client).map Prod.snd

/-- A client appears at most once among the normal recipients, at the maximum of what its
filters grant. -/
theorem filter_matchingSubscribers (r : Router) (topic : String) (client : ClientId) :
    ((r.matchingSubscribers topic).filter fun t => t.1 = client) =
      (maxGranted (r.subsOf client) topic).toList.map fun qos => (client, qos) := by
  have hbind : (r.normal.lookup client).bind (fun subs => maxGranted subs topic) =
      maxGranted (r.subsOf client) topic := by
    cases hlookup : r.normal.lookup client with
    | none => simp [subsOf, hlookup, maxGranted]
    | some subs => simp [subsOf, hlookup]
  rw [matchingSubscribers, sortByClient, AssocList.filter_key_insertionSort Prod.fst,
    AssocMap.filter_filterMap_entries (fun subs => maxGranted subs topic), hbind]

/-- The targets of a client in the route, in order. -/
theorem filter_route (r : Router) (topic : String) (client : ClientId) :
    (((r.route topic).1.filter fun t => t.1 = client).map Prod.snd) = r.grantedTo topic client := by
  simp only [route, sortByClient]
  rw [AssocList.filter_key_insertionSort Prod.fst, List.filter_append, List.map_append,
    filter_matchingSubscribers, List.map_map, grantedTo]
  simp [Function.comp_def]

/-- A target of the route holds a subscription. -/
theorem exists_granted_of_mem_route {r : Router} {topic : String} {target : ClientId × QoS}
    (htarget : target ∈ (r.route topic).1) :
    ∃ key : SubscriptionKey, key.client = target.1 ∧ r.granted key ≠ none := by
  simp only [route, sortByClient, List.mem_insertionSort, List.mem_append] at htarget
  rcases htarget with hnormal | hshared
  · simp only [matchingSubscribers, sortByClient, List.mem_insertionSort, List.mem_filterMap,
      Option.map_eq_some_iff] at hnormal
    obtain ⟨⟨client, subs⟩, hentry, qos, hmax, rfl⟩ := hnormal
    have hne : subs ≠ [] := by
      rintro rfl
      simp [maxGranted] at hmax
    obtain ⟨s, rest, hsubs⟩ := List.exists_cons_of_ne_nil hne
    refine ⟨⟨client, none, subKey s⟩, rfl, (granted_ne_none_iff r _).mpr ?_⟩
    refine List.mem_append_left _ (List.mem_flatMap.mpr ⟨⟨client, subs⟩, hentry, ?_⟩)
    exact List.mem_map.mpr ⟨s, by simp [hsubs], rfl⟩
  · obtain ⟨g, hg, hselected⟩ := List.mem_filterMap.mp hshared
    simp only [AssocMap.values, List.mem_map] at hg
    obtain ⟨⟨group, g⟩, hentry, rfl⟩ := hg
    have hmatching := List.mem_of_getElem? hselected
    simp only [SharedGroup.matching, List.mem_map, List.mem_filter] at hmatching
    obtain ⟨m, ⟨hmember, _⟩, rfl⟩ := hmatching
    refine ⟨⟨m.1, some group, (memberKey m).2⟩, rfl, (granted_ne_none_iff r _).mpr ?_⟩
    refine List.mem_append_right _ (List.mem_flatMap.mpr ⟨⟨group, g⟩, hentry, ?_⟩)
    exact List.mem_map.mpr ⟨m, hmember, rfl⟩

end Router

/-! ## The order of the hash maps -/

namespace Router

/-- The same subscriptions, groups and cursors, with the maps visited in any order. -/
structure Reordered (r r' : Router) : Prop where
  normal : r.normal.entries.Perm r'.normal.entries
  shared : r.shared.entries.Perm r'.shared.entries

/-- No client has the turn in two groups at different QoS. -/
def TurnsAgree (r : Router) (topic : String) : Prop :=
  ∀ group g group' g' m m', r.shared.lookup group = some g → r.shared.lookup group' = some g' →
    g.pick topic = some m → g'.pick topic = some m' → m.1 = m'.1 → m.2.qos = m'.2.qos

/-- The deliveries of a topic, one client at a time. -/
theorem filter_route_eq_map (r : Router) (topic : String) (client : ClientId) :
    ((r.route topic).1.filter fun t => t.1 = client) =
      (r.grantedTo topic client).map fun qos => (client, qos) := by
  have hclient : ∀ t ∈ (r.route topic).1.filter (fun t => t.1 = client), (client, t.2) = t := by
    intro t ht
    rw [← of_decide_eq_true (List.mem_filter.mp ht).2]
  rw [← filter_route, List.map_map]
  exact ((List.map_congr_left hclient).trans (List.map_id _)).symm

/-- Two routes are equal exactly when every client is served alike. -/
theorem route_eq_iff (r r' : Router) (topic : String) :
    (r.route topic).1 = (r'.route topic).1 ↔
      ∀ client, r.grantedTo topic client = r'.grantedTo topic client := by
  constructor
  · intro heq client
    rw [← filter_route, ← filter_route, heq]
  · intro hgranted
    refine AssocList.eq_of_sorted_of_filter_key Prod.fst ?_ ?_ fun client => ?_
    · exact List.pairwise_insertionSort _ _
    · exact List.pairwise_insertionSort _ _
    · rw [filter_route_eq_map, filter_route_eq_map, hgranted]

theorem Reordered.subsOf {r r' : Router} (hr : r.Reordered r') (client : ClientId) :
    r.subsOf client = r'.subsOf client := by
  unfold Router.subsOf
  rw [AList.perm_lookup hr.normal]

/-- With turns that agree, the levels at which groups serve a client are all the same. -/
theorem Reordered.grantedTo {r r' : Router} (hr : r.Reordered r') {topic : String}
    (hturns : r.TurnsAgree topic) (client : ClientId) :
    r.grantedTo topic client = r'.grantedTo topic client := by
  unfold Router.grantedTo
  rw [hr.subsOf]
  congr 1
  have hvalues : r.shared.values.Perm r'.shared.values := by
    unfold AssocMap.values
    exact hr.shared.map _
  have hperm := ((hvalues.filterMap fun g => g.selected topic).filter
    fun t => t.1 = client).map Prod.snd
  have hturn : ∀ qos ∈ ((r.shared.values.filterMap fun g => g.selected topic).filter
      fun t => t.1 = client).map Prod.snd, ∃ group g m, r.shared.lookup group = some g ∧
        g.pick topic = some m ∧ m.1 = client ∧ m.2.qos = qos := by
    intro qos hqos
    obtain ⟨t, ht, rfl⟩ := List.mem_map.mp hqos
    obtain ⟨hselected, hclient⟩ := List.mem_filter.mp ht
    obtain ⟨g, hg, hselected⟩ := List.mem_filterMap.mp hselected
    rw [SharedGroup.selected_eq_pick] at hselected
    obtain ⟨m, hm, rfl⟩ := Option.map_eq_some_iff.mp hselected
    obtain ⟨group, hgroup⟩ := AssocMap.mem_values_iff.mp hg
    exact ⟨group, g, m, hgroup, hm, of_decide_eq_true hclient, rfl⟩
  have hany : ∀ levels : List QoS, levels.Pairwise fun _ _ => True :=
    fun _ => List.pairwise_of_forall fun _ _ => trivial
  refine hperm.eq_of_pairwise (fun a b ha hb _ _ => ?_) (hany _) (hany _)
  obtain ⟨group, g, m, hg, hm, hclient, rfl⟩ := hturn a ha
  obtain ⟨group', g', m', hg', hm', hclient', rfl⟩ := hturn b (hperm.mem_iff.mpr hb)
  exact hturns group g group' g' m m' hg hg' hm hm' (hclient.trans hclient'.symm)

def withShared (r : Router) (entries : List (Sigma fun _ : String => SharedGroup))
    (hperm : r.shared.entries.Perm entries) : Router :=
  { r with shared := ⟨entries, (List.perm_nodupKeys hperm).mp r.shared.nodupKeys⟩ }

theorem reordered_withShared (r : Router) {entries : List (Sigma fun _ : String => SharedGroup)}
    (hperm : r.shared.entries.Perm entries) : r.Reordered (r.withShared entries hperm) :=
  ⟨.refl _, hperm⟩

/-- The route is the same whatever the order in which the maps are visited, exactly when
no client has the turn in two groups at different QoS. -/
theorem route_reordered_iff (r : Router) (topic : String) :
    (∀ r₁ r₂, r.Reordered r₁ → r.Reordered r₂ → (r₁.route topic).1 = (r₂.route topic).1) ↔
      r.TurnsAgree topic := by
  constructor
  · intro hsame group g group' g' m m' hg hg' hm hm' hclient
    by_cases hgroup : group = group'
    · subst hgroup
      rw [hg] at hg'
      cases hg'
      rw [hm] at hm'
      cases hm'
      rfl
    -- the two groups first, in either order
    obtain ⟨rest, hperm⟩ := AssocMap.exists_perm_cons_cons hgroup hg hg'
    have hperm' := hperm.trans (.swap _ _ rest)
    have hroute := (route_eq_iff _ _ topic).mp (hsame _ _ (r.reordered_withShared hperm)
      (r.reordered_withShared hperm')) m.1
    have hselected : g.selected topic = some (m.1, m.2.qos) := by
      rw [SharedGroup.selected_eq_pick, hm, Option.map_some]
    have hselected' : g'.selected topic = some (m.1, m'.2.qos) := by
      rw [SharedGroup.selected_eq_pick, hm', Option.map_some, hclient]
    simp only [grantedTo, withShared, AssocMap.values, List.map_cons, List.filterMap_cons,
      hselected, hselected', decide_true, List.filter_cons_of_pos] at hroute
    exact (List.cons.inj (List.append_cancel_left hroute)).1
  · intro hturns r₁ r₂ hr₁ hr₂
    rw [route_eq_iff]
    intro client
    rw [← hr₁.grantedTo hturns, ← hr₂.grantedTo hturns]

/-- A client with the turn in two groups, at QoS 0 in one and QoS 1 in the other, is
served in the order in which the groups are visited. -/
theorem route_reordered_differs :
    let filter : TopicFilter := ⟨"t", by decide⟩
    let low (r : Router) : Router := r.subscribeShared "a" 1 filter .atMostOnce
    let high (r : Router) : Router := r.subscribeShared "b" 1 filter .atLeastOnce
    (high (low new)).Reordered (low (high new)) ∧
      ((high (low new)).route "t").1 = [(1, .atLeastOnce), (1, .atMostOnce)] ∧
      ((low (high new)).route "t").1 = [(1, .atMostOnce), (1, .atLeastOnce)] := by
  intro filter low high
  exact ⟨⟨.refl _, .swap _ _ _⟩, by decide +kernel, by decide +kernel⟩

end Router

end Relay
