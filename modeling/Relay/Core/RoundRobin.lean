import Relay.Core.RouterMap
import Relay.Foundation.Rotation

/-! # Turns in a share group

One cursor per group counts the publishes that the group took part in, whatever
their topics, and is reduced modulo the number of members that match the topic at
hand. The members take turns over all these publishes together. While the topics
match the same members nobody is ahead by more than one publish; for the publishes
on one topic among others, or for members with different filters, there is no such
bound.
-/

namespace Relay

namespace SharedGroup

/-- Members whose filter matches, in subscription order. -/
def matchingMembers (group : SharedGroup) (topic : String) : List (ClientId × Sub) :=
  group.members.filter fun m => m.2.filter.matchesTopic topic

def pick (group : SharedGroup) (topic : String) : Option (ClientId × Sub) :=
  Rotation.at? (group.matchingMembers topic) group.cursor

theorem matching_eq_map (group : SharedGroup) (topic : String) :
    group.matching topic = (group.matchingMembers topic).map fun m => (m.1, m.2.qos) := rfl

/-- What the router returns for the group is the pick, with its granted level. -/
theorem selected_eq_pick (group : SharedGroup) (topic : String) :
    group.selected topic = (group.pick topic).map fun m => (m.1, m.2.qos) := by
  simp only [selected, pick, Rotation.at?, matching_eq_map, List.length_map, List.getElem?_map]

/-- A topic that no member wants does not use up a turn. -/
theorem advance_of_nil {group : SharedGroup} {topic : String}
    (hnone : group.matchingMembers topic = []) : group.advance topic = group := by
  rw [advance, matching_eq_map, hnone]
  exact if_pos rfl

theorem advance_of_ne_nil {group : SharedGroup} {topic : String}
    (hsome : group.matchingMembers topic ≠ []) (hroom : group.cursor + 1 < usizeBound) :
    group.advance topic = { group with cursor := group.cursor + 1 } := by
  rw [advance, matching_eq_map, if_neg (by simpa using hsome), Nat.mod_eq_of_lt hroom]

/-- The publishes that the group takes part in. -/
def taken (group : SharedGroup) (topics : List String) : List String :=
  topics.filter fun topic => group.matchingMembers topic ≠ []

end SharedGroup

namespace Router

/-- Whom the group selects in a sequence of route calls, with the topic of the call. -/
def picks (r : Router) (group : String) : List String → List (String × ClientId × Sub)
  | [] => []
  | topic :: rest =>
      (((r.shared.lookup group).bind fun g => g.pick topic).toList.map fun m => (topic, m)) ++
        (r.route topic).2.picks group rest

def routeAll (r : Router) (topics : List String) : Router :=
  topics.foldl (fun r topic => (r.route topic).2) r

/-- A sequence of route calls can be cut anywhere. -/
theorem picks_append (r : Router) (group : String) (before after : List String) :
    r.picks group (before ++ after) =
      r.picks group before ++ (r.routeAll before).picks group after := by
  induction before generalizing r with
  | nil => rfl
  | cons topic rest ih =>
      rw [List.cons_append, picks, picks, ih, List.append_assoc]
      rfl

/-- The member that a group selects is one of the recipients. -/
theorem mem_route_of_pick {r : Router} {group : String} {g : SharedGroup}
    (hg : r.shared.lookup group = some g) {topic : String} {m : ClientId × Sub}
    (hpick : g.pick topic = some m) : (m.1, m.2.qos) ∈ (r.route topic).1 := by
  simp only [route, sortByClient, List.mem_insertionSort, List.mem_append]
  refine Or.inr (List.mem_filterMap.mpr ⟨g, AssocMap.mem_values_iff.mpr ⟨group, hg⟩, ?_⟩)
  rw [SharedGroup.selected_eq_pick, hpick, Option.map_some]

theorem lookup_route (r : Router) (topic group : String) :
    (r.route topic).2.shared.lookup group =
      (r.shared.lookup group).map fun g => g.advance topic := by
  simp only [route, AssocMap.lookup_mapVal]

/-- No route call removes a group. -/
theorem exists_lookup_routeAll {r : Router} {group : String} {g : SharedGroup}
    (hg : r.shared.lookup group = some g) (topics : List String) :
    ∃ g', (r.routeAll topics).shared.lookup group = some g' := by
  induction topics generalizing r g with
  | nil => exact ⟨g, hg⟩
  | cons topic rest ih =>
      refine ih (g := g.advance topic) ?_
      rw [lookup_route, hg, Option.map_some]

/-- What one route call adds to the picks is what the group selects in it, and the call
hands it out. -/
theorem picks_handed_out {r : Router} {group : String} {g : SharedGroup}
    (hg : r.shared.lookup group = some g) (before : List String) (topic : String) :
    ∃ g', (r.routeAll before).shared.lookup group = some g' ∧
      r.picks group (before ++ [topic]) =
        r.picks group before ++ (g'.pick topic).toList.map (fun m => (topic, m)) ∧
      g'.selected topic = (g'.pick topic).map (fun m => (m.1, m.2.qos)) ∧
      ∀ m ∈ g'.pick topic, (m.1, m.2.qos) ∈ ((r.routeAll before).route topic).1 := by
  obtain ⟨g', hg'⟩ := exists_lookup_routeAll hg before
  refine ⟨g', hg', ?_, g'.selected_eq_pick topic, fun m hm => mem_route_of_pick hg' hm⟩
  rw [picks_append, picks, hg', Option.bind_some, picks, List.append_nil]

/-- Publish after publish that the group takes part in, the cursor moves on by one. -/
theorem picks_eq {r : Router} {group : String} {g : SharedGroup}
    (hg : r.shared.lookup group = some g) {topics : List String}
    (hroom : g.cursor + (g.taken topics).length < usizeBound) :
    r.picks group topics = ((g.taken topics).zipIdx g.cursor).filterMap fun turn =>
      (Rotation.at? (g.matchingMembers turn.1) turn.2).map fun m => (turn.1, m) := by
  induction topics generalizing r g with
  | nil => rfl
  | cons topic rest ih =>
      have hnext := lookup_route r topic group
      rw [hg, Option.map_some] at hnext
      by_cases hnone : g.matchingMembers topic = []
      · -- nobody matches: the group is as before
        have htaken : g.taken (topic :: rest) = g.taken rest := by
          simp [SharedGroup.taken, hnone]
        have hpick : g.pick topic = none := by
          simp [SharedGroup.pick, Rotation.at?, hnone]
        rw [htaken] at hroom ⊢
        rw [SharedGroup.advance_of_nil hnone] at hnext
        rw [picks, hg, Option.bind_some, hpick, ih hnext hroom]
        rfl
      · have htaken : g.taken (topic :: rest) = topic :: g.taken rest := by
          simp [SharedGroup.taken, hnone]
        rw [htaken, List.length_cons] at hroom
        rw [SharedGroup.advance_of_ne_nil hnone (by omega)] at hnext
        have hrest := ih hnext (by
          change g.cursor + 1 + (g.taken rest).length < usizeBound
          omega)
        rw [picks, hg, Option.bind_some, hrest, htaken, List.zipIdx_cons, List.filterMap_cons,
          SharedGroup.pick]
        cases Rotation.at? (g.matchingMembers topic) g.cursor <;> rfl

/-- Topics that match the same members: these take turns. -/
theorem map_picks_eq_turns {r : Router} {group : String} {g : SharedGroup}
    (hg : r.shared.lookup group = some g) {topics : List String}
    (hroom : g.cursor + (g.taken topics).length < usizeBound) {members : List (ClientId × Sub)}
    (hsame : ∀ topic ∈ topics, g.matchingMembers topic = [] ∨ g.matchingMembers topic = members) :
    (r.picks group topics).map Prod.snd =
      Rotation.turns members g.cursor (g.taken topics).length := by
  have htaken : ∀ topic ∈ g.taken topics, g.matchingMembers topic = members := by
    intro topic htopic
    obtain ⟨hmem, hne⟩ := List.mem_filter.mp htopic
    exact (hsame topic hmem).resolve_left (of_decide_eq_true hne)
  rw [picks_eq hg hroom]
  generalize g.taken topics = taken at htaken
  generalize g.cursor = cursor
  induction taken generalizing cursor with
  | nil => rfl
  | cons topic rest ih =>
      rw [List.forall_mem_cons] at htaken
      have hrest := ih htaken.2 (cursor + 1)
      rw [List.zipIdx_cons, List.filterMap_cons, List.length_cons, Rotation.turns, ← hrest,
        htaken.1]
      cases Rotation.at? members cursor <;> rfl

/-- Every publish that the group takes part in goes to the next matching member, counted
by one cursor for all topics. While the topics match the same members, none of them
is selected more than once more than another. The members are those that the route calls
hand out: each call adds to the picks what the group selects in it, and this is among the
recipients that the call returns. -/
theorem picks_roundRobin (r : Router) (hwf : r.WF) (group : String) (g : SharedGroup)
    (hg : r.shared.lookup group = some g) (topics : List String)
    (hroom : g.cursor + (g.taken topics).length < usizeBound) :
    (r.picks group topics = ((g.taken topics).zipIdx g.cursor).filterMap fun turn =>
      (Rotation.at? (g.matchingMembers turn.1) turn.2).map fun m => (turn.1, m)) ∧
    (∀ members,
      (∀ topic ∈ topics, g.matchingMembers topic = [] ∨ g.matchingMembers topic = members) →
      ∀ m ∈ members, ∀ m' ∈ members,
        ((r.picks group topics).map Prod.snd).count m ≤
          ((r.picks group topics).map Prod.snd).count m' + 1) ∧
    ∀ before topic after, topics = before ++ topic :: after →
      ∃ g', (r.routeAll before).shared.lookup group = some g' ∧
        r.picks group (before ++ [topic]) =
          r.picks group before ++ (g'.pick topic).toList.map (fun m => (topic, m)) ∧
        g'.selected topic = (g'.pick topic).map (fun m => (m.1, m.2.qos)) ∧
        ∀ m ∈ g'.pick topic, (m.1, m.2.qos) ∈ ((r.routeAll before).route topic).1 := by
  refine ⟨picks_eq hg hroom, fun members hsame m hm m' hm' => ?_,
    fun before topic _ _ => picks_handed_out hg before topic⟩
  rw [map_picks_eq_turns hg hroom hsame]
  by_cases htaken : g.taken topics = []
  · simp [htaken, Rotation.turns]
  · obtain ⟨topic, htopic⟩ := List.exists_mem_of_ne_nil _ htaken
    obtain ⟨hmem, hne⟩ := List.mem_filter.mp htopic
    have hmembers := (hsame topic hmem).resolve_left (of_decide_eq_true hne)
    have hdistinct : g.members.Nodup := by
      have hkeys := hwf.members_distinct group
      rw [membersOf, hg] at hkeys
      exact hkeys.of_map
    refine Rotation.count_turns_le ?_ hm hm' _ _
    rw [← hmembers]
    exact hdistinct.filter _

def worker (client : ClientId) : ClientId × Sub := (client, ⟨⟨"#", by decide⟩, .atMostOnce⟩)

def twoWorkers : Router :=
  (new.subscribeShared "workers" 1 (worker 1).2.filter .atMostOnce).subscribeShared "workers" 2
    (worker 2).2.filter .atMostOnce

theorem twoWorkers_take_turns :
    ((twoWorkers.picks "workers" ["t", "u", "t"]).map Prod.snd).count (worker 1) ≤
      ((twoWorkers.picks "workers" ["t", "u", "t"]).map Prod.snd).count (worker 2) + 1 := by
  have hwf : twoWorkers.WF :=
    (wf_new.subscribeShared 1 _ _ "workers").subscribeShared 2 _ _ "workers"
  obtain ⟨-, hfair, -⟩ := picks_roundRobin twoWorkers hwf "workers" ⟨[worker 1, worker 2], 0⟩
    (by decide) ["t", "u", "t"] (by decide)
  exact hfair [worker 1, worker 2] (by decide) _ (by decide) _ (by decide)

/-- Publishes on two topics in turn: one worker gets all those on the first topic. -/
theorem twoWorkers_unfair_by_topic :
    let onT := ((twoWorkers.picks "workers" ["t", "u", "t", "u"]).filter fun turn =>
      turn.1 = "t").map Prod.snd
    (∃ g, twoWorkers.shared.lookup "workers" = some g ∧
      worker 1 ∈ g.matchingMembers "t" ∧ worker 2 ∈ g.matchingMembers "t") ∧
      ¬ onT.count (worker 1) ≤ onT.count (worker 2) + 1 :=
  ⟨⟨⟨[worker 1, worker 2], 0⟩, by decide, by decide, by decide⟩, by decide⟩

end Router

end Relay
