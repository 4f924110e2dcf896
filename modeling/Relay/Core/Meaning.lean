import Relay.Core.Acl

/-! # What filters mean

The matching loop against a description of the topics that a filter selects, and
what follows for the structural check of the permissions: it refuses nothing that
a pattern covers. The loop does not look at whether a filter is well formed, so a
malformed one may match as well.
-/

namespace Relay

/-! ## Level by level -/

/-- Where both have a level, that of the filter is `+` or equal to the other. -/
def LevelWise (fs ts : List String) : Prop :=
  ∀ (i : Nat) (level topicLevel : String), fs[i]? = some level → ts[i]? = some topicLevel →
    level = "+" ∨ level = topicLevel

/-- The levels that the levels of a filter select: as many as it has itself, or at
least as many as stand in front of its final `#`. -/
def Selects (fs ts : List String) : Prop :=
  ("#" ∉ fs ∧ fs.length = ts.length ∧ LevelWise fs ts) ∨
    ∃ front, fs = front ++ ["#"] ∧ front.length ≤ ts.length ∧ LevelWise front ts

theorem levelWise_nil (ts : List String) : LevelWise [] ts := by
  intro i level topicLevel hlevel
  cases hlevel

theorem levelWise_cons {level topicLevel : String} {fs ts : List String} :
    LevelWise (level :: fs) (topicLevel :: ts) ↔
      (level = "+" ∨ level = topicLevel) ∧ LevelWise fs ts := by
  constructor
  · intro hwise
    exact ⟨hwise 0 level topicLevel rfl rfl, fun i l t hl ht => hwise (i + 1) l t hl ht⟩
  · rintro ⟨hhead, htail⟩ i l t hl ht
    cases i with
    | zero =>
        cases hl
        cases ht
        exact hhead
    | succ i => exact htail i l t hl ht

theorem selects_nil_iff {ts : List String} : Selects [] ts ↔ ts = [] := by
  constructor
  · rintro (⟨-, hlength, -⟩ | ⟨front, hfront, -⟩)
    · exact List.eq_nil_of_length_eq_zero hlength.symm
    · exact absurd hfront (by simp)
  · rintro rfl
    exact Or.inl ⟨List.not_mem_nil, rfl, levelWise_nil []⟩

theorem selects_hash (ts : List String) : Selects ["#"] ts :=
  Or.inr ⟨[], rfl, Nat.zero_le _, levelWise_nil ts⟩

theorem not_selects_cons_nil {level : String} (hhash : level ≠ "#") (fs : List String) :
    ¬ Selects (level :: fs) [] := by
  rintro (⟨-, hlength, -⟩ | ⟨front, hfront, hlength, -⟩)
  · cases hlength
  · rw [List.eq_nil_of_length_eq_zero (Nat.le_zero.mp hlength)] at hfront
    exact hhash (List.cons.inj hfront).1

/-- Selection goes level by level, as the loop does. -/
theorem selects_cons_cons {level topicLevel : String} (hhash : level ≠ "#") {fs ts : List String} :
    Selects (level :: fs) (topicLevel :: ts) ↔
      (level = "+" ∨ level = topicLevel) ∧ Selects fs ts := by
  constructor
  · rintro (⟨hnone, hlength, hwise⟩ | ⟨front, hfront, hlength, hwise⟩)
    · obtain ⟨hhead, htail⟩ := levelWise_cons.mp hwise
      exact ⟨hhead, Or.inl ⟨fun hmem => hnone (List.mem_cons_of_mem level hmem),
        Nat.succ.inj hlength, htail⟩⟩
    · -- the literal or `+` at the head is the first level in front of the `#`
      cases front with
      | nil => exact absurd (List.cons.inj hfront).1 hhash
      | cons l front =>
          obtain ⟨rfl, rfl⟩ := List.cons.inj hfront
          obtain ⟨hhead, htail⟩ := levelWise_cons.mp hwise
          exact ⟨hhead, Or.inr ⟨front, rfl, Nat.le_of_succ_le_succ hlength, htail⟩⟩
  · rintro ⟨hhead, ⟨hnone, hlength, hwise⟩ | ⟨front, rfl, hlength, hwise⟩⟩
    · refine Or.inl ⟨?_, congrArg Nat.succ hlength, levelWise_cons.mpr ⟨hhead, hwise⟩⟩
      rw [List.mem_cons, not_or]
      exact ⟨Ne.symm hhash, hnone⟩
    · exact Or.inr ⟨level :: front, rfl, Nat.succ_le_succ hlength,
        levelWise_cons.mpr ⟨hhead, hwise⟩⟩

/-- Nothing follows a `#` in an accepted filter. -/
theorem levelsAccepted_hash {fs : List String} (haccepted : levelsAccepted ("#" :: fs) = true) :
    fs = [] := by
  cases fs with
  | nil => rfl
  | cons next rest =>
      have hfirst := (Bool.and_eq_true_iff.mp haccepted).1
      exact absurd hfirst (by decide)

/-- What stands behind the first level of an accepted filter is accepted itself. -/
theorem levelsAccepted_tail {level : String} {fs : List String}
    (haccepted : levelsAccepted (level :: fs) = true) : levelsAccepted fs = true := by
  cases fs with
  | nil => rfl
  | cons next rest => exact (Bool.and_eq_true_iff.mp haccepted).2

/-- The loop decides the selection. -/
theorem matchLevels_iff_selects {fs ts : List String} (haccepted : levelsAccepted fs = true) :
    matchLevels fs ts = true ↔ Selects fs ts := by
  induction fs generalizing ts with
  | nil => rw [matchLevels_nil_iff, selects_nil_iff]
  | cons level fs ih =>
      by_cases hhash : level = "#"
      · subst level
        rw [levelsAccepted_hash haccepted]
        exact ⟨fun _ => selects_hash ts, fun _ => matchLevels_hash [] ts⟩
      · cases ts with
        | nil =>
            rw [matchLevels_cons_nil hhash]
            exact ⟨nofun, fun hselects => absurd hselects (not_selects_cons_nil hhash fs)⟩
        | cons topicLevel ts =>
            rw [matchLevels_cons_cons hhash, selects_cons_cons hhash,
              ← ih (levelsAccepted_tail haccepted)]
            split
            next hhead => exact ⟨fun htail => ⟨hhead, htail⟩, And.right⟩
            next hhead => exact ⟨nofun, fun hboth => absurd hboth.1 hhead⟩

theorem TopicFilter.levelsAccepted (filter : TopicFilter) :
    levelsAccepted (levels filter.asStr) = true :=
  (Bool.and_eq_true_iff.mp filter.accepted).2

theorem wildcardFirst_iff {filter : String} :
    wildcardFirst filter = true ↔
      (levels filter).head? = some "+" ∨ (levels filter).head? = some "#" := by
  unfold wildcardFirst
  cases hlevels : levels filter with
  | nil => exact absurd hlevels (levels_ne_nil filter)
  | cons level fs => simp

/-- An accepted filter matches exactly the topics it selects level by level, and
none that begin with `$` if it begins with a wildcard. -/
theorem topicMatches_iff_selects (filter : TopicFilter) (topic : String) :
    topicMatches filter.asStr topic = true ↔
      ¬ (Text.startsWithChar '$' topic = true ∧
        ((levels filter.asStr).head? = some "+" ∨ (levels filter.asStr).head? = some "#")) ∧
      (("#" ∉ levels filter.asStr ∧ (levels filter.asStr).length = (levels topic).length ∧
          LevelWise (levels filter.asStr) (levels topic)) ∨
        ∃ front, levels filter.asStr = front ++ ["#"] ∧ front.length ≤ (levels topic).length ∧
          LevelWise front (levels topic)) := by
  rw [topicMatches_iff, wildcardFirst_iff, matchLevels_iff_selects filter.levelsAccepted]
  rfl

/-! ## Completeness of the structural check -/

/-- A list that covers some levels alone and followed by one more covers them
followed by any number. -/
theorem subsumeLevels_append_hash {ps front : List String}
    (hparent : subsumeLevels ps front = true) (hchild : subsumeLevels ps (front ++ ["+"]) = true) :
    subsumeLevels ps (front ++ ["#"]) = true := by
  induction ps generalizing front with
  | nil =>
      cases front with
      | nil => cases hchild
      | cons g front => cases hparent
  | cons level ps ih =>
      by_cases hhash : level = "#"
      · subst level
        cases front <;> rfl
      · cases front with
        | nil =>
            rw [subsumeLevels_cons_nil hhash] at hparent
            cases hparent
        | cons g front =>
            obtain ⟨hg, hcover, hrest⟩ := (subsumeLevels_cons_cons hhash ps g front).mp hparent
            obtain ⟨-, -, hrest'⟩ := (subsumeLevels_cons_cons hhash ps g _).mp hchild
            exact (subsumeLevels_cons_cons hhash ps g _).mpr ⟨hg, hcover, ih hrest hrest'⟩

/-- The instances of the levels of an accepted filter. -/
theorem unroll_cases {fs : List String} (haccepted : levelsAccepted fs = true) :
    (∀ k, unroll k fs = fs) ∨
      ∃ front, fs = front ++ ["#"] ∧ ∀ k, unroll k fs = front ++ List.replicate k "+" := by
  induction fs with
  | nil => exact Or.inl fun _ => rfl
  | cons level fs ih =>
      by_cases hhash : level = "#"
      · subst level
        rw [levelsAccepted_hash haccepted]
        exact Or.inr ⟨[], rfl, fun _ => rfl⟩
      · have hunroll : ∀ k, unroll k (level :: fs) = level :: unroll k fs := fun k => by
          rw [unroll, if_neg hhash]
        rcases ih (levelsAccepted_tail haccepted) with hsame | ⟨front, hfront, hunrolled⟩
        · exact Or.inl fun k => by rw [hunroll, hsame]
        · exact Or.inr ⟨level :: front, by rw [hfront, List.cons_append],
            fun k => by rw [hunroll, hunrolled, List.cons_append]⟩

theorem eq_hash_of_levels {filter : String} (hlevels : levels filter = ["#"]) : filter = "#" := by
  have hjoin := congrArg (Text.join '/') hlevels
  rwa [levels, Text.join_split] at hjoin

/-- A filter other than `#` has a level in front of the `#`. -/
theorem unroll_ne_nil {filter : TopicFilter} (hbare : filter.asStr ≠ "#") (k : Nat) :
    unroll k (levels filter.asStr) ≠ [] := by
  cases hlevels : levels filter.asStr with
  | nil => exact absurd hlevels (levels_ne_nil filter.asStr)
  | cons level fs =>
      have haccepted := filter.levelsAccepted
      by_cases hhash : level = "#"
      · subst level
        rw [hlevels] at haccepted
        rw [levelsAccepted_hash haccepted] at hlevels
        exact absurd (eq_hash_of_levels hlevels) hbare
      · rw [unroll, if_neg hhash]
        exact List.cons_ne_nil _ _

/-- A sample of a filter is a topic that the filter matches. The filling is no `$`
name, so the shield of a first `+` does not apply. -/
theorem topicMatches_sample {filter filling : String} {k : Nat}
    (hslash : '/' ∉ filling.toList) (hdollar : Text.startsWithChar '$' filling = false)
    (hne : unroll k (levels filter) ≠ []) (hfirst : (levels filter).head? ≠ some "#") :
    topicMatches filter (sampleTopic filling k filter) = true := by
  have hlevels := levels_sampleTopic hslash hne
  apply topicMatches_iff.mpr
  constructor
  · rintro ⟨htopic, hwild⟩
    have hplus := (wildcardFirst_iff.mp hwild).resolve_right hfirst
    obtain ⟨fs, hfs⟩ := List.head?_eq_some_iff.mp hplus
    rw [← startsWithChar_levels, hlevels, hfs, unroll, if_neg (by decide), List.map_cons,
      List.headD_cons, fillLevel, if_pos rfl, hdollar] at htopic
    cases htopic
  · rw [hlevels]
    exact matchLevels_sample filling k (levels filter)

/-- A pattern that matches every topic of a filter covers the instances of the
filter: a filling that the pattern does not mention is matched by a wildcard. -/
theorem subsumeLevels_unroll {allowed : String} {requested : TopicFilter}
    (hbare : requested.asStr ≠ "#")
    (hcovers : ∀ topic, Concrete topic → topicMatches requested.asStr topic = true →
      topicMatches allowed topic = true) (k : Nat) :
    subsumeLevels (levels allowed) (unroll k (levels requested.asStr)) = true := by
  obtain ⟨filling, hfresh, hslash, hconcrete, hdollar⟩ := exists_filling (levels allowed)
  have hne := unroll_ne_nil hbare k
  have hfirst : (levels requested.asStr).head? ≠ some "#" := by
    intro hhash
    obtain ⟨fs, hfs⟩ := List.head?_eq_some_iff.mp hhash
    have haccepted := requested.levelsAccepted
    rw [hfs] at haccepted
    rw [levelsAccepted_hash haccepted] at hfs
    exact hbare (eq_hash_of_levels hfs)
  have hmatch := hcovers (sampleTopic filling k requested.asStr)
    (concrete_sampleTopic requested hconcrete k) (topicMatches_sample hslash hdollar hne hfirst)
  have hlevels := (topicMatches_iff.mp hmatch).2
  rw [levels_sampleTopic hslash hne] at hlevels
  exact subsumeLevels_of_matchLevels (hash_notMem_unroll k _) (matchLevels_of_sample hfresh hlevels)

/-- The structural check accepts every request that the pattern covers, other than
the bare `#`. The pattern need not be well formed. -/
theorem filterSubsumes_complete (allowed : String) (requested : TopicFilter)
    (hbare : requested.asStr ≠ "#")
    (hcovers : ∀ topic, Concrete topic → topicMatches requested.asStr topic = true →
      topicMatches allowed topic = true) :
    filterSubsumes allowed requested.asStr = true := by
  have hinstances := subsumeLevels_unroll hbare hcovers
  unfold filterSubsumes
  rcases unroll_cases requested.levelsAccepted with hsame | ⟨front, hfront, hunrolled⟩
  · rw [← hsame 0]
    exact hinstances 0
  · -- the parent level and one level below it decide about all levels below
    have hparent := hinstances 0
    have hchild := hinstances 1
    rw [hunrolled, List.replicate_zero, List.append_nil] at hparent
    rw [hunrolled, List.replicate_one] at hchild
    rw [hfront]
    exact subsumeLevels_append_hash hparent hchild

/-- Every user's subtree is covered by a wildcard for the user. -/
theorem filterSubsumes_complete_drive :
    (∀ topic, Concrete topic → topicMatches "drive/u1/#" topic = true →
        topicMatches "drive/+/#" topic = true) ∧
      filterSubsumes "drive/+/#" "drive/u1/#" = true := by
  have hcovers : ∀ topic, Concrete topic → topicMatches "drive/u1/#" topic = true →
      topicMatches "drive/+/#" topic = true := by
    intro topic _ hmatch
    exact topicMatches_of_filterSubsumes (by decide) hmatch fun _ => by decide
  exact ⟨hcovers, filterSubsumes_complete "drive/+/#" ⟨"drive/u1/#", by decide⟩ (by decide) hcovers⟩

/-! ## Malformed filters -/

def Glued (level : String) : Prop := level ≠ "+" ∧ ¬ Concrete level

instance (level : String) : Decidable (Glued level) := inferInstanceAs (Decidable (_ ∧ _))

def comparedLevels (filter : String) : List String :=
  (levels filter).takeWhile fun level => level ≠ "#"

theorem unroll_zero (fs : List String) :
    unroll 0 fs = fs.takeWhile fun level => level ≠ "#" := by
  induction fs with
  | nil => rfl
  | cons level fs ih =>
      by_cases hhash : level = "#"
      · simp [unroll, hhash]
      · simp [unroll, hhash, ih]

theorem matchLevels_self (fs : List String) : matchLevels fs fs = true := by
  induction fs with
  | nil => rfl
  | cons level fs ih =>
      by_cases hhash : level = "#"
      · subst level
        exact matchLevels_hash fs _
      · rw [matchLevels_cons_cons hhash, if_pos (Or.inr rfl)]
        exact ih

/-- Every filter matches itself. -/
theorem topicMatches_self (filter : String) : topicMatches filter filter = true := by
  apply topicMatches_iff.mpr
  constructor
  · rintro ⟨hdollar, hwild⟩
    rw [wildcardFirst_of_dollar hdollar] at hwild
    cases hwild
  · exact matchLevels_self (levels filter)

/-- A level in front of the `#` that is no `+` is a level of the topic. -/
theorem mem_of_matchLevels {fs ts : List String} (hmatch : matchLevels fs ts = true)
    {level : String} (hlevel : level ∈ fs.takeWhile fun level => level ≠ "#")
    (hplus : level ≠ "+") : level ∈ ts := by
  induction fs generalizing ts with
  | nil => cases hlevel
  | cons head fs ih =>
      by_cases hhash : head = "#"
      · simp [hhash] at hlevel
      · rw [List.takeWhile_cons_of_pos (by simpa using hhash)] at hlevel
        cases ts with
        | nil =>
            rw [matchLevels_cons_nil hhash] at hmatch
            cases hmatch
        | cons topicLevel ts =>
            rw [matchLevels_cons_cons hhash] at hmatch
            split at hmatch
            next hhead =>
              rcases List.mem_cons.mp hlevel with rfl | hrest
              · rw [hhead.resolve_left hplus]
                exact List.mem_cons_self
              · exact List.mem_cons_of_mem topicLevel (ih hmatch hrest)
            next => cases hmatch

/-- A filter without glued wildcards in front of its first `#` matches some topic
name, well formed or not. -/
theorem exists_topic_of_not_glued {filter : String}
    (hglued : ∀ level ∈ comparedLevels filter, ¬ Glued level) :
    ∃ topic, Concrete topic ∧ topicMatches filter topic = true := by
  by_cases hfirst : (levels filter).head? = some "#"
  · obtain ⟨fs, hfs⟩ := List.head?_eq_some_iff.mp hfirst
    refine ⟨"x", by decide, topicMatches_iff.mpr ⟨?_, ?_⟩⟩
    · intro hshield
      exact absurd hshield.1 (by decide)
    · rw [hfs]
      exact matchLevels_hash fs _
  · have hne : unroll 0 (levels filter) ≠ [] := by
      cases hlevels : levels filter with
      | nil => exact absurd hlevels (levels_ne_nil filter)
      | cons level fs =>
          rw [hlevels, List.head?_cons, Option.some.injEq] at hfirst
          rw [unroll, if_neg hfirst]
          exact List.cons_ne_nil _ _
    refine ⟨sampleTopic "x" 0 filter, ?_,
      topicMatches_sample (by decide) (by decide) hne hfirst⟩
    apply concrete_join
    intro part hpart
    obtain ⟨level, hlevel, rfl⟩ := List.mem_map.mp hpart
    rw [unroll_zero] at hlevel
    unfold fillLevel
    split
    next => decide
    next hplus => exact not_not.mp fun hwild => hglued level hlevel ⟨hplus, hwild⟩

/-- A filter contributes nothing: it matches no topic name, and what a permission
list with it grants, another of its patterns grants. -/
def Ineffective (filter : String) : Prop :=
  (∀ topic, Concrete topic → topicMatches filter topic = false) ∧
    ∀ (acl : Acl) (topic : String), Concrete topic → acl.canPublish topic = true →
      ∃ pattern ∈ acl.publish, pattern ≠ filter ∧ topicMatches pattern topic = true

/-- Matching no topic name is enough: a pattern that grants a topic matches it. -/
theorem ineffective_iff {filter : String} :
    Ineffective filter ↔ ∀ topic, Concrete topic → topicMatches filter topic = false := by
  constructor
  · intro hnothing
    exact hnothing.1
  · intro hnothing
    refine ⟨hnothing, fun acl topic hconcrete hcan => ?_⟩
    obtain ⟨pattern, hpattern, hmatch⟩ := List.any_eq_true.mp hcan
    refine ⟨pattern, hpattern, ?_, hmatch⟩
    rintro rfl
    rw [hnothing topic hconcrete] at hmatch
    cases hmatch

/-- A filter that is rejected as malformed contributes nothing exactly if a level
in front of its first `#` has a wildcard character next to other text. Read as a
topic, every filter matches itself. -/
theorem malformed_ineffective_iff (filter : String) :
    ((TopicFilter.parse filter = none → Ineffective filter) ↔
      ((TopicFilter.parse filter).isSome = true ∨
        ∃ level ∈ comparedLevels filter, Glued level)) ∧
    topicMatches filter filter = true := by
  refine ⟨?_, topicMatches_self filter⟩
  constructor
  · intro hnothing
    cases hparse : TopicFilter.parse filter with
    | some parsed => exact Or.inl rfl
    | none =>
        apply Or.inr
        by_contra hnone
        obtain ⟨topic, hconcrete, hmatch⟩ := exists_topic_of_not_glued fun level hlevel hglued =>
          hnone ⟨level, hlevel, hglued⟩
        rw [(hnothing hparse).1 topic hconcrete] at hmatch
        cases hmatch
  · intro hcase hparse
    apply ineffective_iff.mpr
    rcases hcase with haccepted | ⟨level, hlevel, hplus, hwild⟩
    · rw [hparse] at haccepted
      cases haccepted
    · -- the level would have to be a level of the topic name
      intro topic hconcrete
      apply Bool.eq_false_iff.mpr
      intro hmatch
      have hmem := mem_of_matchLevels (topicMatches_iff.mp hmatch).2 hlevel hplus
      exact hwild (concrete_of_mem_levels hconcrete hmem)

/-- A `#` in the middle is rejected, but everything in front of it is granted. -/
theorem malformed_effective :
    TopicFilter.parse "#/admin" = none ∧ Concrete "orders/eu" ∧
      topicMatches "#/admin" "orders/eu" = true ∧
      (Acl.mk ["#/admin"] []).canPublish "orders/eu" = true := by
  decide

end Relay
