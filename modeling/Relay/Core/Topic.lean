import Relay.Core.Message
import Relay.Foundation.Text

/-! # Topic filters and topic names

A topic name is what a message is published to; a topic filter is what a client
subscribes with and may contain the wildcards `+` and `#`. Both are split at
`/` into levels and compared level by level. Shared subscriptions carry a group
name in front of the filter.
-/

namespace Relay

def levels (s : String) : List String := Text.split '/' s

/-- The check of one filter level: `#` must be the whole level and the last one,
`+` must be the whole level. -/
def levelAccepted (isLast : Bool) (level : String) : Bool :=
  if '#' ∈ level.toList ∧ (level ≠ "#" ∨ !isLast) then false
  else if '+' ∈ level.toList ∧ level ≠ "+" then false
  else true

def levelsAccepted : List String → Bool
  | [] => true
  | [level] => levelAccepted true level
  | level :: next :: rest => levelAccepted false level && levelsAccepted (next :: rest)

/-- What `TopicFilter::parse` checks of a string. -/
def filterAccepted (filter : String) : Bool :=
  filter ≠ "" && levelsAccepted (levels filter)

/-- A validated filter. The string is private to its constructor in the source,
so every value has passed the check. -/
structure TopicFilter where
  asStr : String
  accepted : filterAccepted asStr = true
deriving DecidableEq

/-- The level loop of `topic_matches`, on the two level iterators. -/
def matchLevels : List String → List String → Bool
  | "#" :: _, _ => true
  | level :: fs, topicLevel :: ts =>
      if level = "+" ∨ level = topicLevel then matchLevels fs ts else false
  | [], [] => true
  | _, _ => false

/-- Is the first level of a filter a wildcard? -/
def wildcardFirst (filter : String) : Bool :=
  (levels filter).headD "" = "+" || (levels filter).headD "" = "#"

/-- Does `filter` match the concrete `topic` name? A wildcard first level is
shielded from topics that begin with `$`. -/
def topicMatches (filter topic : String) : Bool :=
  if Text.startsWithChar '$' topic && wildcardFirst filter then false
  else matchLevels (levels filter) (levels topic)

namespace TopicFilter

def parse (filter : String) : Option TopicFilter :=
  if h : filterAccepted filter then some ⟨filter, h⟩ else none

def matchesTopic (filter : TopicFilter) (topic : String) : Bool :=
  topicMatches filter.asStr topic

/-- Parsing keeps the text of an accepted filter. -/
theorem parse_eq_some_iff {s : String} {filter : TopicFilter} :
    parse s = some filter ↔ filter.asStr = s := by
  unfold parse
  constructor
  · intro h
    split at h
    next => cases h; rfl
    next => cases h
  · rintro rfl
    rw [dif_pos filter.accepted]

end TopicFilter

/-- A shared subscription `$share/{group}/{filter}`. -/
structure SharedSubscription where
  group : String
  filter : TopicFilter
deriving DecidableEq

/-- `none` for an ordinary subscription, and also for a malformed shared one. -/
def SharedSubscription.parse (subscription : String) : Option SharedSubscription := do
  let rest ← Text.strip "$share/" subscription
  let (group, filter) ← Text.splitOnce '/' rest
  if group = "" ∨ '+' ∈ group.toList ∨ '#' ∈ group.toList then none
  else
    let filter ← TopicFilter.parse filter
    some ⟨group, filter⟩

def Concrete (topic : String) : Prop := '+' ∉ topic.toList ∧ '#' ∉ topic.toList

instance (topic : String) : Decidable (Concrete topic) :=
  inferInstanceAs (Decidable (_ ∧ _))

theorem levels_ne_nil (s : String) : levels s ≠ [] := Text.split_ne_nil '/' s

@[simp] theorem matchLevels_hash (fs ts : List String) : matchLevels ("#" :: fs) ts = true := by
  cases ts <;> simp [matchLevels]

theorem matchLevels_cons_nil {level : String} (hhash : level ≠ "#") (fs : List String) :
    matchLevels (level :: fs) [] = false := by
  unfold matchLevels
  split <;> simp_all

theorem matchLevels_cons_cons {level : String} (hhash : level ≠ "#") (fs : List String)
    (topicLevel : String) (ts : List String) :
    matchLevels (level :: fs) (topicLevel :: ts) =
      if level = "+" ∨ level = topicLevel then matchLevels fs ts else false := by
  rw [matchLevels]
  simpa using hhash

@[simp] theorem matchLevels_nil_iff (ts : List String) : matchLevels [] ts = true ↔ ts = [] := by
  cases ts <;> simp [matchLevels]

/-- Matching, with the shield for `$` topics apart from the levels. -/
theorem topicMatches_iff {filter topic : String} :
    topicMatches filter topic = true ↔
      ¬ (Text.startsWithChar '$' topic = true ∧ wildcardFirst filter = true) ∧
        matchLevels (levels filter) (levels topic) = true := by
  unfold topicMatches
  split <;> simp_all

theorem wildcardFirst_eq_false_iff {filter : String} :
    wildcardFirst filter = false ↔
      (levels filter).headD "" ≠ "+" ∧ (levels filter).headD "" ≠ "#" := by
  simp [wildcardFirst]

/-- Whether a name begins with `$` shows in its first level. -/
theorem startsWithChar_levels (s : String) :
    Text.startsWithChar '$' ((levels s).headD "") = Text.startsWithChar '$' s :=
  Text.startsWithChar_headD_split (by decide) s

/-- A literal first level is the first level of every topic it matches. -/
theorem headD_levels_of_topicMatches {filter topic : String}
    (hmatch : topicMatches filter topic = true) (hliteral : wildcardFirst filter = false) :
    (levels topic).headD "" = (levels filter).headD "" := by
  have hlevels := (topicMatches_iff.mp hmatch).2
  obtain ⟨hplus, hhash⟩ := wildcardFirst_eq_false_iff.mp hliteral
  cases hf : levels filter with
  | nil => exact absurd hf (levels_ne_nil filter)
  | cons level fs =>
      rw [hf, List.headD_cons] at hplus hhash
      rw [hf] at hlevels
      cases ht : levels topic with
      | nil => exact absurd ht (levels_ne_nil topic)
      | cons topicLevel ts =>
          rw [ht, matchLevels_cons_cons hhash] at hlevels
          split at hlevels
          next hlevel => exact (hlevel.resolve_left hplus).symm
          next => cases hlevels

/-- Only a literal first level matches a `$` topic, and it begins with `$` too. -/
theorem startsWithChar_of_topicMatches {filter topic : String}
    (hmatch : topicMatches filter topic = true)
    (hdollar : Text.startsWithChar '$' topic = true) :
    Text.startsWithChar '$' filter = true := by
  have hliteral : wildcardFirst filter = false := by
    simpa [hdollar] using (topicMatches_iff.mp hmatch).1
  rw [← startsWithChar_levels, ← headD_levels_of_topicMatches hmatch hliteral,
    startsWithChar_levels]
  exact hdollar

/-- A filter that begins with `$` has a literal first level. -/
theorem wildcardFirst_of_dollar {filter : String}
    (hdollar : Text.startsWithChar '$' filter = true) : wildcardFirst filter = false := by
  rw [← startsWithChar_levels] at hdollar
  rw [wildcardFirst_eq_false_iff]
  constructor
  · intro heq
    rw [heq] at hdollar
    cases hdollar
  · intro heq
    rw [heq] at hdollar
    cases hdollar

/-! ## Subscription strings -/

/-- The grammar of `$share/`: a group without separators and wildcards, then a filter. -/
theorem SharedSubscription.parse_eq_some_iff {raw : String} {shared : SharedSubscription} :
    SharedSubscription.parse raw = some shared ↔
      raw = "$share/" ++ (shared.group ++ String.singleton '/' ++ shared.filter.asStr) ∧
        shared.group ≠ "" ∧ '/' ∉ shared.group.toList ∧ '+' ∉ shared.group.toList ∧
          '#' ∉ shared.group.toList := by
  constructor
  · intro hparse
    obtain ⟨rest, hstrip, hrest⟩ := Option.bind_eq_some_iff.mp hparse
    obtain ⟨⟨group, filter⟩, hsplit, hgroup⟩ := Option.bind_eq_some_iff.mp hrest
    obtain ⟨hslash, heq⟩ := Text.splitOnce_eq_some_iff.mp hsplit
    dsimp only at hgroup
    split at hgroup
    · cases hgroup
    next hname =>
      simp only [not_or] at hname
      obtain ⟨f, hf, hshared⟩ := Option.bind_eq_some_iff.mp hgroup
      cases hshared
      rw [Text.strip_eq_some_iff.mp hstrip, heq, TopicFilter.parse_eq_some_iff.mp hf]
      exact ⟨rfl, hname.1, hslash, hname.2.1, hname.2.2⟩
  · rintro ⟨rfl, hne, hslash, hplus, hhash⟩
    unfold SharedSubscription.parse
    rw [Text.strip_eq_some_iff.mpr rfl]
    simp only [Option.bind_eq_bind, Option.bind_some,
      Text.splitOnce_eq_some_iff.mpr ⟨hslash, rfl⟩, hne, hplus, hhash, or_self, if_false,
      TopicFilter.parse_eq_some_iff.mpr rfl]

theorem SharedSubscription.parse_eq_some {raw : String} {shared : SharedSubscription}
    (hparse : SharedSubscription.parse raw = some shared) :
    raw = "$share/" ++ (shared.group ++ String.singleton '/' ++ shared.filter.asStr) :=
  (parse_eq_some_iff.mp hparse).1

/-- Share group and filter under which the router holds a subscription string. -/
def routeKey (raw : String) : Option (Option String × String) :=
  match SharedSubscription.parse raw with
  | some shared => some (some shared.group, shared.filter.asStr)
  | none => (TopicFilter.parse raw).map fun filter => (none, filter.asStr)

/-- The string is determined by what the router holds. -/
theorem eq_of_routeKey {raw filter : String} {group : Option String}
    (hraw : routeKey raw = some (group, filter)) :
    raw = group.elim filter fun group => "$share/" ++ (group ++ "/" ++ filter) := by
  unfold routeKey at hraw
  split at hraw
  next shared hshared =>
    cases hraw
    exact SharedSubscription.parse_eq_some hshared
  next =>
    obtain ⟨parsed, hparsed, heq⟩ := Option.map_eq_some_iff.mp hraw
    cases heq
    exact (TopicFilter.parse_eq_some_iff.mp hparsed).symm

/-- No two subscription strings share a place in the router. -/
theorem routeKey_inj {raw raw' : String} {key : Option String × String}
    (hraw : routeKey raw = some key) (hraw' : routeKey raw' = some key) : raw = raw' :=
  (eq_of_routeKey hraw).trans (eq_of_routeKey hraw').symm

end Relay
