import Relay.Server.RetainedWrites

/-! # The law of the retained store

What a filter is answered after any sequence of retained publishes: of every topic it
matches the last message, unless that one cleared the topic, in the order of the
topics. The rows written for the same publishes, loaded and applied to a new store,
are answered alike.
-/

namespace Relay

namespace RetainedStore

/-- Every message is kept under its own topic. -/
def Keyed (store : RetainedStore) : Prop :=
  ∀ topic m, store.byTopic.lookup topic = some m → m.topic = topic

theorem Keyed.of_entry {store : RetainedStore} (hkeyed : store.Keyed)
    {e : Sigma fun _ : String => Message} (he : e ∈ store.byTopic.entries) : e.2.topic = e.1 :=
  hkeyed e.1 e.2 (AssocMap.mem_entries_iff.mp he)

/-! ## Answers -/

/-- A filter finds the message of every topic that it matches. -/
theorem mem_matching_iff {store : RetainedStore} (hkeyed : store.Keyed) (filter : TopicFilter)
    (m : Message) :
    m ∈ store.matching filter ↔
      filter.matchesTopic m.topic = true ∧ store.byTopic.lookup m.topic = some m := by
  simp only [matching, List.mem_insertionSort, List.mem_map, List.mem_filter]
  constructor
  · rintro ⟨e, ⟨he, hmatch⟩, rfl⟩
    have htopic := hkeyed.of_entry he
    rw [htopic]
    exact ⟨hmatch, AssocMap.mem_entries_iff.mp he⟩
  · rintro ⟨hmatch, hlookup⟩
    exact ⟨⟨m.topic, m⟩, ⟨AssocMap.mem_entries_iff.mpr hlookup, hmatch⟩, rfl⟩

/-- The topics of an answer ascend strictly: no topic has two messages. -/
theorem pairwise_matching {store : RetainedStore} (hkeyed : store.Keyed) (filter : TopicFilter) :
    (store.matching filter).Pairwise fun a b => a.topic < b.topic := by
  have hsorted : (store.matching filter).Pairwise fun a b => a.topic ≤ b.topic :=
    List.pairwise_insertionSort _ _
  have hperm := (List.perm_insertionSort (fun a b : Message => a.topic ≤ b.topic)
    ((store.byTopic.entries.filter fun e => filter.matchesTopic e.1).map Sigma.snd)).map
      Message.topic
  have htopics : ((store.byTopic.entries.filter fun e => filter.matchesTopic e.1).map
      Sigma.snd).map Message.topic =
      (store.byTopic.entries.filter fun e => filter.matchesTopic e.1).map Sigma.fst := by
    rw [List.map_map]
    exact List.map_congr_left fun e he => hkeyed.of_entry (List.mem_of_mem_filter he)
  have hnodup : ((store.matching filter).map Message.topic).Nodup := by
    rw [matching, hperm.nodup_iff, htopics]
    exact List.Nodup.sublist (List.filter_sublist.map Sigma.fst) store.byTopic.nodupKeys
  exact hsorted.imp₂ (fun _ _ hle hne => lt_of_le_of_ne hle hne) (List.pairwise_map.mp hnodup)

/-- Stores that hold the same messages answer every filter alike. -/
theorem matching_congr {store store' : RetainedStore} (hkeyed : store.Keyed)
    (hlookup : ∀ topic, store'.byTopic.lookup topic = store.byTopic.lookup topic)
    (filter : TopicFilter) : store'.matching filter = store.matching filter := by
  have hkeyed' : store'.Keyed := fun topic m hm => hkeyed topic m (hlookup topic ▸ hm)
  have hsorted := pairwise_matching hkeyed filter
  have hsorted' := pairwise_matching hkeyed' filter
  refine List.Perm.eq_of_pairwise (fun a b _ _ hab hba => absurd hab hba.asymm) hsorted' hsorted ?_
  refine (List.perm_ext_iff_of_nodup ?_ ?_).mpr fun m => ?_
  · exact hsorted'.imp fun hlt heq => hlt.ne (congrArg Message.topic heq)
  · exact hsorted.imp fun hlt heq => hlt.ne (congrArg Message.topic heq)
  · rw [mem_matching_iff hkeyed', mem_matching_iff hkeyed, hlookup]

end RetainedStore

/-! ## Retained publishes -/

/-- A retained publish, with the message that the store keeps of it. -/
structure RetainedPublish where
  topic : String
  payload : Bytes
  qos : QoS

def RetainedPublish.message (p : RetainedPublish) : Message := ⟨p.topic, p.payload, p.qos, true⟩

/-- The store in memory after retained publishes. -/
def RetainedStore.after (publishes : List RetainedPublish) : RetainedStore :=
  publishes.foldl (fun store p => store.apply p.message) .new

def Storage.after (publishes : List RetainedPublish) : Storage :=
  publishes.foldl (fun st p => st.putRetained p.topic p.payload p.qos) .empty

def RetainedStore.reloaded (publishes : List RetainedPublish) : RetainedStore :=
  (Storage.after publishes).loadRetained.foldl RetainedStore.apply .new

/-- The last message published on a topic. -/
def lastOn (publishes : List RetainedPublish) (topic : String) : Option Message :=
  ((publishes.map RetainedPublish.message).filter fun m => m.topic = topic).getLast?

theorem lastOn_concat (publishes : List RetainedPublish) (p : RetainedPublish) (topic : String) :
    lastOn (publishes ++ [p]) topic =
      if p.topic = topic then some p.message else lastOn publishes topic := by
  unfold lastOn
  rw [List.map_append, List.filter_append]
  by_cases htopic : p.topic = topic
  · simp [RetainedPublish.message, htopic]
  · simp [RetainedPublish.message, htopic]

/-- Memory holds the last message of a topic, unless its payload is empty. -/
theorem RetainedStore.lookup_after (publishes : List RetainedPublish) (topic : String) :
    (RetainedStore.after publishes).byTopic.lookup topic =
      (lastOn publishes topic).filter fun m => m.payload ≠ [] := by
  induction publishes using List.reverseRecOn with
  | nil => rfl
  | append_singleton publishes p ih =>
      rw [after, List.foldl_append, List.foldl_cons, List.foldl_nil, lookup_apply, lastOn_concat]
      unfold Message.replaces
      by_cases htopic : p.topic = topic
      · by_cases hpayload : p.payload = []
        · simp [RetainedPublish.message, htopic, hpayload, Option.filter]
        · simp [RetainedPublish.message, htopic, hpayload, Option.filter]
      · rw [if_neg (by exact htopic), if_neg htopic]
        exact ih

/-- The rows are those of the messages in memory. -/
theorem rowOf_after (publishes : List RetainedPublish) (topic : String) :
    Storage.RowOf topic ((RetainedStore.after publishes).byTopic.lookup topic)
      (Storage.after publishes).retained[topic]? := by
  induction publishes using List.reverseRecOn with
  | nil => exact ⟨by simp [RetainedStore.after, RetainedStore.new], rfl⟩
  | append_singleton publishes p ih =>
      have hrow := ih.replaces (m := p.message) rfl
      have hput := (Storage.after publishes).retained_applyPersistOp
        (.putRetained p.topic p.payload p.qos) topic
      rw [RetainedStore.after, Storage.after, List.foldl_append, List.foldl_append,
        List.foldl_cons, List.foldl_cons, List.foldl_nil, List.foldl_nil,
        RetainedStore.lookup_apply]
      rw [Storage.applyPersistOp] at hput
      exact hput ▸ hrow

theorem RetainedStore.keyed_after (publishes : List RetainedPublish) :
    (RetainedStore.after publishes).Keyed :=
  fun topic m hm => ((rowOf_after publishes topic).keptUnder m hm).topic_eq

/-- After any retained publishes a filter is answered with the last message of every topic
it matches whose last payload is not empty, in strictly ascending order of the topics;
and the store rebuilt from disk answers alike. -/
theorem matching_after (publishes : List RetainedPublish) (filter : TopicFilter) :
    ((RetainedStore.after publishes).matching filter).Pairwise (fun a b => a.topic < b.topic) ∧
      (∀ m, m ∈ (RetainedStore.after publishes).matching filter ↔
        filter.matchesTopic m.topic = true ∧ lastOn publishes m.topic = some m ∧
          m.payload ≠ []) ∧
      (RetainedStore.reloaded publishes).matching filter =
        (RetainedStore.after publishes).matching filter := by
  have hkeyed := RetainedStore.keyed_after publishes
  refine ⟨RetainedStore.pairwise_matching hkeyed filter, fun m => ?_, ?_⟩
  · rw [RetainedStore.mem_matching_iff hkeyed, RetainedStore.lookup_after,
      Option.filter_eq_some_iff, decide_eq_true_eq]
  · exact RetainedStore.matching_congr hkeyed
      (fun topic => RetainedStore.lookup_reload (rowOf_after publishes topic)) filter

example :
    let publishes : List RetainedPublish :=
      [⟨"b", [1], .atMostOnce⟩, ⟨"a", [2], .atLeastOnce⟩, ⟨"b", [3], .exactlyOnce⟩,
        ⟨"c", [4], .atMostOnce⟩, ⟨"c", [], .atMostOnce⟩]
    (RetainedStore.reloaded publishes).matching ⟨"#", by decide⟩ =
      [⟨"a", [2], .atLeastOnce, true⟩, ⟨"b", [3], .exactlyOnce, true⟩] := by
  decide +kernel

end Relay
