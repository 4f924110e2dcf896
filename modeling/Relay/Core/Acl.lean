import Relay.Core.Topic

/-! # Topic access control

The publish check matches a concrete topic against the allowed patterns. The
subscribe check compares two filters structurally: an allowed pattern has to
subsume the requested filter. This module relates the structural check to the
topics the two filters match.
-/

namespace Relay

/-- The already templated topic permissions of one principal. -/
structure Acl where
  publish : List String
  subscribe : List String
deriving DecidableEq, Repr

/-- The level loop of `filter_subsumes`: `#` in the allowed pattern covers the
rest, `+` covers one level that is not `#`, and a literal covers only itself. -/
def subsumeLevels : List String → List String → Bool
  | "#" :: _, _ => true
  | [], [] => true
  | al :: as, rl :: rs =>
      if rl = "#" then false
      else if al = "+" then subsumeLevels as rs
      else if rl = "+" then false
      else if al = rl then subsumeLevels as rs
      else false
  | _, _ => false

def filterSubsumes (allowed requested : String) : Bool :=
  subsumeLevels (levels allowed) (levels requested)

namespace Acl

def default : Acl := ⟨[], []⟩

def canPublish (acl : Acl) (topic : String) : Bool :=
  acl.publish.any (topicMatches · topic)

def canSubscribe (acl : Acl) (filter : String) : Bool :=
  acl.subscribe.any (filterSubsumes · filter)

end Acl

theorem subsumeLevels_cons_cons {al : String} (hhash : al ≠ "#") (as : List String)
    (rl : String) (rs : List String) :
    subsumeLevels (al :: as) (rl :: rs) = true ↔
      rl ≠ "#" ∧ (al = "+" ∨ rl ≠ "+" ∧ al = rl) ∧ subsumeLevels as rs = true := by
  rw [subsumeLevels]
  · split_ifs <;> simp_all
  · simpa using hhash

theorem subsumeLevels_cons_nil {al : String} (hhash : al ≠ "#") (as : List String) :
    subsumeLevels (al :: as) [] = false := by
  unfold subsumeLevels
  split <;> simp_all

/-- The two level walks agree: what the requested levels match, the subsuming
levels match. -/
theorem matchLevels_of_subsumeLevels {as rs ts : List String}
    (hsub : subsumeLevels as rs = true) (hmatch : matchLevels rs ts = true) :
    matchLevels as ts = true := by
  induction as generalizing rs ts with
  | nil =>
      cases rs with
      | nil => exact hmatch
      | cons rl rs => simp [subsumeLevels] at hsub
  | cons al as ih =>
      by_cases hhash : al = "#"
      · subst al
        exact matchLevels_hash as ts
      cases rs with
      | nil => rw [subsumeLevels_cons_nil hhash] at hsub; cases hsub
      | cons rl rs =>
          obtain ⟨hrl, hcover, hrest⟩ := (subsumeLevels_cons_cons hhash as rl rs).mp hsub
          cases ts with
          | nil => rw [matchLevels_cons_nil hrl] at hmatch; cases hmatch
          | cons topicLevel ts =>
              rw [matchLevels_cons_cons hrl] at hmatch
              rw [matchLevels_cons_cons hhash]
              split at hmatch
              next hlevel =>
                have htail := ih hrest hmatch
                rcases hcover with hplus | ⟨hplus, heq⟩
                · simp [hplus, htail]
                · rw [if_pos (Or.inr (heq.trans (hlevel.resolve_left hplus)))]
                  exact htail
              next => cases hmatch

/-! ## Instances of a filter -/

/-- The levels of a filter with `#` written out as `k` single-level wildcards. -/
def unroll (k : Nat) : List String → List String
  | [] => []
  | level :: rest => if level = "#" then List.replicate k "+" else level :: unroll k rest

def unrolled (k : Nat) (filter : String) : String := Text.join '/' (unroll k (levels filter))

def fillLevel (filling level : String) : String := if level = "+" then filling else level

/-- A topic that the filter matches. -/
def sampleTopic (filling : String) (k : Nat) (filter : String) : String :=
  Text.join '/' ((unroll k (levels filter)).map (fillLevel filling))

/-- Writing `#` out adds single-level wildcards and nothing else. -/
theorem mem_unroll {k : Nat} {fs : List String} {level : String} (hlevel : level ∈ unroll k fs) :
    level = "+" ∨ level ∈ fs ∧ level ≠ "#" := by
  induction fs with
  | nil => cases hlevel
  | cons head rest ih =>
      unfold unroll at hlevel
      split at hlevel
      next => exact Or.inl (List.eq_of_mem_replicate hlevel)
      next hhash =>
        rcases List.mem_cons.mp hlevel with rfl | hlevel
        · exact Or.inr ⟨List.mem_cons_self, hhash⟩
        · exact (ih hlevel).imp_right fun h => ⟨List.mem_cons_of_mem head h.1, h.2⟩

theorem hash_notMem_unroll (k : Nat) (fs : List String) : "#" ∉ unroll k fs := by
  intro hmem
  rcases mem_unroll hmem with heq | ⟨-, hne⟩
  · exact absurd heq (by decide)
  · exact hne rfl

/-- What a filter matches, one of its instances matches. -/
theorem exists_matchLevels_unroll {fs ts : List String} (hmatch : matchLevels fs ts = true) :
    ∃ k, matchLevels (unroll k fs) ts = true := by
  induction fs generalizing ts with
  | nil => exact ⟨0, hmatch⟩
  | cons level fs ih =>
      by_cases hhash : level = "#"
      · refine ⟨ts.length, ?_⟩
        rw [unroll, if_pos hhash]
        clear hmatch
        induction ts with
        | nil => rfl
        | cons topicLevel ts ih =>
            rw [List.length_cons, List.replicate_succ, matchLevels_cons_cons (by decide),
              if_pos (Or.inl rfl)]
            exact ih
      · cases ts with
        | nil =>
            rw [matchLevels_cons_nil hhash] at hmatch
            cases hmatch
        | cons topicLevel ts =>
            rw [matchLevels_cons_cons hhash] at hmatch
            split at hmatch
            next hlevel =>
              obtain ⟨k, hk⟩ := ih hmatch
              refine ⟨k, ?_⟩
              rw [unroll, if_neg hhash, matchLevels_cons_cons hhash, if_pos hlevel]
              exact hk
            next => cases hmatch

/-- A filter matches the samples of its instances. -/
theorem matchLevels_sample (filling : String) (k : Nat) (fs : List String) :
    matchLevels fs ((unroll k fs).map (fillLevel filling)) = true := by
  induction fs with
  | nil => rfl
  | cons level fs ih =>
      by_cases hhash : level = "#"
      · subst level
        exact matchLevels_hash fs _
      · rw [unroll, if_neg hhash, List.map_cons, matchLevels_cons_cons hhash, ih]
        by_cases hplus : level = "+"
        · simp [hplus]
        · simp [fillLevel, hplus]

/-- A pattern that matches a sample with a filling of which it knows nothing
matches the instance itself, read as a topic. -/
theorem matchLevels_of_sample {filling : String} {ps gs : List String} (hfresh : filling ∉ ps)
    (hmatch : matchLevels ps (gs.map (fillLevel filling)) = true) : matchLevels ps gs = true := by
  induction ps generalizing gs with
  | nil => simpa using hmatch
  | cons level ps ih =>
      rw [List.mem_cons, not_or] at hfresh
      by_cases hhash : level = "#"
      · subst level
        exact matchLevels_hash ps gs
      · cases gs with
        | nil => exact hmatch
        | cons g gs =>
            rw [List.map_cons, matchLevels_cons_cons hhash] at hmatch
            rw [matchLevels_cons_cons hhash]
            split at hmatch
            next hlevel =>
              have hg : level = "+" ∨ level = g := by
                rcases hlevel with hplus | heq
                · exact Or.inl hplus
                · unfold fillLevel at heq
                  split at heq
                  · exact absurd heq.symm hfresh.1
                  · exact Or.inr heq
              rw [if_pos hg]
              exact ih hfresh.2 hmatch
            next => cases hmatch

/-- A pattern that matches an instance read as a topic subsumes it. -/
theorem subsumeLevels_of_matchLevels {ps gs : List String} (hhash : "#" ∉ gs)
    (hmatch : matchLevels ps gs = true) : subsumeLevels ps gs = true := by
  induction ps generalizing gs with
  | nil =>
      rw [(matchLevels_nil_iff gs).mp hmatch]
      rfl
  | cons level ps ih =>
      by_cases hlevel : level = "#"
      · subst level
        cases gs <;> rfl
      · cases gs with
        | nil =>
            rw [matchLevels_cons_nil hlevel] at hmatch
            cases hmatch
        | cons g gs =>
            rw [List.mem_cons, not_or] at hhash
            rw [matchLevels_cons_cons hlevel] at hmatch
            split at hmatch
            next hcover =>
              refine (subsumeLevels_cons_cons hlevel ps g gs).mpr ⟨Ne.symm hhash.1, ?_,
                ih hhash.2 hmatch⟩
              by_cases hplus : level = "+"
              · exact Or.inl hplus
              · have heq := hcover.resolve_left hplus
                exact Or.inr ⟨heq ▸ hplus, heq⟩
            next => cases hmatch

/-- The levels of a sample, unless the instance has none. -/
theorem levels_sampleTopic {filling filter : String} (hfilling : '/' ∉ filling.toList) {k : Nat}
    (hne : unroll k (levels filter) ≠ []) :
    levels (sampleTopic filling k filter) = (unroll k (levels filter)).map (fillLevel filling) := by
  apply Text.split_join
  · simpa using hne
  · intro part hpart
    obtain ⟨level, hlevel, rfl⟩ := List.mem_map.mp hpart
    unfold fillLevel
    split
    next => exact hfilling
    next hplus =>
      exact Text.not_mem_of_mem_split ((mem_unroll hlevel).resolve_left hplus).1

/-! ## Requests that begin with `$` -/

section Dollar

variable {filter : String} (hdollar : Text.startsWithChar '$' filter = true)

include hdollar

theorem exists_unroll_of_dollar (k : Nat) :
    ∃ rest, unroll k (levels filter) = (levels filter).headD "" :: rest ∧
      (levels filter).headD "" ≠ "+" := by
  obtain ⟨hplus, hhash⟩ := wildcardFirst_eq_false_iff.mp (wildcardFirst_of_dollar hdollar)
  cases hlevels : levels filter with
  | nil => exact absurd hlevels (levels_ne_nil filter)
  | cons level fs =>
      rw [hlevels, List.headD_cons] at hplus hhash
      exact ⟨unroll k fs, by rw [unroll, if_neg hhash, List.headD_cons], hplus⟩

theorem unroll_ne_nil_of_dollar (k : Nat) : unroll k (levels filter) ≠ [] := by
  obtain ⟨rest, hunroll, -⟩ := exists_unroll_of_dollar hdollar k
  rw [hunroll]
  exact List.cons_ne_nil _ _

/-- A pattern below `$` keeps its first level, so the text that is written out splits into
the levels again. -/
theorem levels_unrolled (k : Nat) : levels (unrolled k filter) = unroll k (levels filter) := by
  apply Text.split_join
  · exact unroll_ne_nil_of_dollar hdollar k
  · intro part hpart
    rcases mem_unroll hpart with rfl | ⟨hlevel, -⟩
    · decide
    · exact Text.not_mem_of_mem_split hlevel

theorem unrolled_dollar (k : Nat) : Text.startsWithChar '$' (unrolled k filter) = true := by
  obtain ⟨rest, hunroll, -⟩ := exists_unroll_of_dollar hdollar k
  rw [← startsWithChar_levels, levels_unrolled hdollar, hunroll, List.headD_cons,
    startsWithChar_levels]
  exact hdollar

/-- The sample of a pattern below `$` is itself below `$`. -/
theorem sampleTopic_dollar {filling : String} (hfilling : '/' ∉ filling.toList) (k : Nat) :
    Text.startsWithChar '$' (sampleTopic filling k filter) = true := by
  obtain ⟨rest, hunroll, hplus⟩ := exists_unroll_of_dollar hdollar k
  rw [← startsWithChar_levels, levels_sampleTopic hfilling (unroll_ne_nil_of_dollar hdollar k),
    hunroll, List.map_cons, List.headD_cons, fillLevel, if_neg hplus, startsWithChar_levels]
  exact hdollar

/-- No wildcard stands first, so the shield of `$` topics does not apply to the sample. -/
theorem topicMatches_sampleTopic {filling : String} (hfilling : '/' ∉ filling.toList) (k : Nat) :
    topicMatches filter (sampleTopic filling k filter) = true := by
  rw [topicMatches_iff]
  refine ⟨fun h => ?_, ?_⟩
  · rw [wildcardFirst_of_dollar hdollar] at h
    cases h.2
  · rw [levels_sampleTopic hfilling (unroll_ne_nil_of_dollar hdollar k)]
    exact matchLevels_sample filling k (levels filter)

end Dollar

/-- An accepted level other than a wildcard is free of wildcard characters. -/
theorem concrete_of_levelAccepted {isLast : Bool} {level : String}
    (haccepted : levelAccepted isLast level = true) (hplus : level ≠ "+") (hhash : level ≠ "#") :
    Concrete level := by
  unfold levelAccepted at haccepted
  split at haccepted
  next => cases haccepted
  next hhash' =>
    split at haccepted
    next => cases haccepted
    next hplus' =>
      simp only [not_and, ne_eq, not_or, not_not] at hhash' hplus'
      exact ⟨fun hmem => hplus (hplus' hmem), fun hmem => hhash (hhash' hmem).1⟩

theorem levelsAccepted_mem {fs : List String} (haccepted : levelsAccepted fs = true)
    {level : String} (hlevel : level ∈ fs) :
    ∃ isLast, levelAccepted isLast level = true := by
  induction fs with
  | nil => cases hlevel
  | cons head tail ih =>
      cases tail with
      | nil =>
          rw [List.mem_singleton] at hlevel
          exact ⟨true, hlevel ▸ haccepted⟩
      | cons next rest =>
          rw [levelsAccepted, Bool.and_eq_true] at haccepted
          rcases List.mem_cons.mp hlevel with rfl | hlevel
          · exact ⟨false, haccepted.1⟩
          · exact ih haccepted.2 hlevel

/-- Separators bring no wildcard in. -/
theorem concrete_join {parts : List String} (hparts : ∀ part ∈ parts, Concrete part) :
    Concrete (Text.join '/' parts) := by
  constructor
  · intro hmem
    rcases Text.mem_join hmem with heq | ⟨part, hpart, hmem⟩
    · cases heq
    · exact (hparts part hpart).1 hmem
  · intro hmem
    rcases Text.mem_join hmem with heq | ⟨part, hpart, hmem⟩
    · cases heq
    · exact (hparts part hpart).2 hmem

theorem concrete_of_mem_levels {topic level : String} (hconcrete : Concrete topic)
    (hlevel : level ∈ levels topic) : Concrete level :=
  ⟨fun hmem => hconcrete.1 (Text.mem_of_mem_split hlevel hmem),
    fun hmem => hconcrete.2 (Text.mem_of_mem_split hlevel hmem)⟩

/-- Every wildcard of the filter is filled in or written out. -/
theorem concrete_sampleTopic (filter : TopicFilter) {filling : String} (hfilling : Concrete filling)
    (k : Nat) : Concrete (sampleTopic filling k filter.asStr) := by
  have haccepted := filter.accepted
  rw [filterAccepted, Bool.and_eq_true] at haccepted
  have hlevels : ∀ part ∈ (unroll k (levels filter.asStr)).map (fillLevel filling),
      Concrete part := by
    intro part hpart
    obtain ⟨level, hlevel, rfl⟩ := List.mem_map.mp hpart
    unfold fillLevel
    split
    next => exact hfilling
    next hplus =>
      obtain ⟨hlevel, hhash⟩ := (mem_unroll hlevel).resolve_left hplus
      obtain ⟨isLast, hlast⟩ := levelsAccepted_mem haccepted.2 hlevel
      exact concrete_of_levelAccepted hlast hplus hhash
  exact concrete_join hlevels

/-- A topic level that occurs in none of the given patterns. -/
theorem exists_filling (names : List String) :
    ∃ filling, filling ∉ names ∧ '/' ∉ filling.toList ∧ Concrete filling ∧
      Text.startsWithChar '$' filling = false := by
  have hinj : Function.Injective fun n : Nat => String.ofList (List.replicate n 'x') := by
    intro n m heq
    have hlist := congrArg String.toList heq
    simp only [String.toList_ofList] at hlist
    simpa using congrArg List.length hlist
  obtain ⟨filling, ⟨n, rfl⟩, hfresh⟩ :=
    (Set.infinite_range_of_injective hinj).exists_notMem_finset names.toFinset
  have hletters : ∀ c ∈ (String.ofList (List.replicate n 'x')).toList, c = 'x' := by
    intro c hc
    rw [String.toList_ofList] at hc
    exact List.eq_of_mem_replicate hc
  refine ⟨_, fun hmem => hfresh (List.mem_toFinset.mpr hmem), fun hmem => ?_, ⟨fun hmem => ?_,
    fun hmem => ?_⟩, Bool.eq_false_iff.mpr fun hdollar => ?_⟩
  · exact absurd (hletters _ hmem) (by decide)
  · exact absurd (hletters _ hmem) (by decide)
  · exact absurd (hletters _ hmem) (by decide)
  · have hmem := List.mem_of_head? (beq_iff_eq.mp hdollar)
    exact absurd (hletters _ hmem) (by decide)

/-! ## Soundness -/

/-- A subsuming pattern matches what the requested filter matches, as long as
the `$` shield of the pattern is not in the way. -/
theorem topicMatches_of_filterSubsumes {allowed requested topic : String}
    (hsub : filterSubsumes allowed requested = true)
    (hmatch : topicMatches requested topic = true)
    (hshield : Text.startsWithChar '$' topic = true → wildcardFirst allowed = false) :
    topicMatches allowed topic = true := by
  rw [topicMatches_iff]
  refine ⟨fun h => ?_, matchLevels_of_subsumeLevels hsub (topicMatches_iff.mp hmatch).2⟩
  rw [hshield h.1] at h
  cases h.2

/-- A permission list covers the topics of a `$` request exactly when, read as
topics, it matches the request's instances. -/
theorem covers_iff_of_dollar (patterns : List String) {requested : TopicFilter}
    (hdollar : Text.startsWithChar '$' requested.asStr = true) :
    (∀ topic, Concrete topic → topicMatches requested.asStr topic = true →
        ∃ pattern ∈ patterns, topicMatches pattern topic = true) ↔
      ∀ k, ∃ pattern ∈ patterns, topicMatches pattern (unrolled k requested.asStr) = true := by
  constructor
  · intro hcovered k
    -- a filling that no pattern mentions can only be matched by a wildcard
    obtain ⟨filling, hfresh, hslash, hconcrete, -⟩ := exists_filling (patterns.flatMap levels)
    obtain ⟨pattern, hpattern, hmatch⟩ := hcovered _ (concrete_sampleTopic requested hconcrete k)
      (topicMatches_sampleTopic hdollar hslash k)
    obtain ⟨hshield, hlevels⟩ := topicMatches_iff.mp hmatch
    refine ⟨pattern, hpattern, topicMatches_iff.mpr ⟨?_, ?_⟩⟩
    · rintro ⟨-, hwild⟩
      exact hshield ⟨sampleTopic_dollar hdollar hslash k, hwild⟩
    · rw [levels_sampleTopic hslash (unroll_ne_nil_of_dollar hdollar k)] at hlevels
      rw [levels_unrolled hdollar]
      exact matchLevels_of_sample (fun hmem => hfresh (List.mem_flatMap.mpr ⟨pattern, hpattern,
        hmem⟩)) hlevels
  · intro hcovered topic _ hmatch
    obtain ⟨k, hk⟩ := exists_matchLevels_unroll (topicMatches_iff.mp hmatch).2
    obtain ⟨pattern, hpattern, hinstance⟩ := hcovered k
    obtain ⟨hshield, hlevels⟩ := topicMatches_iff.mp hinstance
    rw [levels_unrolled hdollar] at hlevels
    refine ⟨pattern, hpattern, topicMatches_iff.mpr ⟨?_, ?_⟩⟩
    · rintro ⟨-, hwild⟩
      exact hshield ⟨unrolled_dollar hdollar k, hwild⟩
    · exact matchLevels_of_subsumeLevels
        (subsumeLevels_of_matchLevels (hash_notMem_unroll k _) hlevels) hk

/-- Subsumption is sound for a requested filter and an allowed pattern exactly
when the request does not begin with `$` or the pattern has a literal first
level. A permission list covers what it grants exactly when the request does not
begin with `$` or every instance of the request is matched as a topic would be. -/
theorem filterSubsumes_sound_iff (acl : Acl) (allowed : String) (requested : TopicFilter) :
    (filterSubsumes allowed requested.asStr = true →
      ((∀ topic, Concrete topic → topicMatches requested.asStr topic = true →
          topicMatches allowed topic = true) ↔
        ¬ (Text.startsWithChar '$' requested.asStr = true ∧ wildcardFirst allowed = true))) ∧
    (acl.canSubscribe requested.asStr = true →
      ((∀ topic, Concrete topic → topicMatches requested.asStr topic = true →
          ∃ pattern ∈ acl.subscribe, topicMatches pattern topic = true) ↔
        (Text.startsWithChar '$' requested.asStr = true →
          ∀ k, ∃ pattern ∈ acl.subscribe,
            topicMatches pattern (unrolled k requested.asStr) = true))) := by
  refine ⟨fun hsub => ⟨?_, ?_⟩, fun hcan => ⟨?_, ?_⟩⟩
  · -- the sample topic of a `$` request is shielded from a wildcard pattern
    rintro hsound ⟨hdollar, hwild⟩
    have hmatch := hsound (sampleTopic "x" 1 requested.asStr)
      (concrete_sampleTopic requested (by decide) 1)
      (topicMatches_sampleTopic hdollar (by decide) 1)
    exact (topicMatches_iff.mp hmatch).1 ⟨sampleTopic_dollar hdollar (by decide) 1, hwild⟩
  · intro hshield topic _ hmatch
    refine topicMatches_of_filterSubsumes hsub hmatch fun hdollar => ?_
    have hrequested := startsWithChar_of_topicMatches hmatch hdollar
    simpa [hrequested] using hshield
  · intro hcovered hdollar
    exact (covers_iff_of_dollar acl.subscribe hdollar).mp hcovered
  · intro hshield topic hconcrete hmatch
    cases hdollar : Text.startsWithChar '$' requested.asStr with
    | true =>
        exact (covers_iff_of_dollar acl.subscribe hdollar).mpr (hshield hdollar) topic hconcrete
          hmatch
    | false =>
        obtain ⟨pattern, hpattern, hsub⟩ := List.any_eq_true.mp hcan
        refine ⟨pattern, hpattern, topicMatches_of_filterSubsumes hsub hmatch fun htopic => ?_⟩
        rw [startsWithChar_of_topicMatches hmatch htopic] at hdollar
        cases hdollar

/-- A subtree grant covers its subtree. -/
theorem filterSubsumes_sound_iff_drive :
    (Acl.mk [] ["drive/u1/#"]).canSubscribe "drive/u1/+" = true ∧
      (∀ topic, Concrete topic → topicMatches "drive/u1/+" topic = true →
        topicMatches "drive/u1/#" topic = true) ∧
      ∀ topic, Concrete topic → topicMatches "drive/u1/+" topic = true →
        ∃ pattern ∈ ["drive/u1/#"], topicMatches pattern topic = true := by
  have hsound := filterSubsumes_sound_iff ⟨[], ["drive/u1/#"]⟩ "drive/u1/#"
    ⟨"drive/u1/+", by decide⟩
  exact ⟨by decide, (hsound.1 (by decide)).mpr (by decide),
    (hsound.2 (by decide)).mpr fun hdollar => absurd hdollar (by decide)⟩

/-- The pattern `#` subsumes `$SYS/uptime` and does not match it, so a
permission list `["#"]` grants a topic that none of its patterns matches. -/
theorem filterSubsumes_unsound_at_dollar :
    TopicFilter.parse "$SYS/uptime" = some ⟨"$SYS/uptime", by decide⟩ ∧
      Concrete "$SYS/uptime" ∧
      filterSubsumes "#" "$SYS/uptime" = true ∧
      topicMatches "$SYS/uptime" "$SYS/uptime" = true ∧
      topicMatches "#" "$SYS/uptime" = false ∧
      (Acl.mk [] ["#"]).canSubscribe "$SYS/uptime" = true ∧
      ¬ ∃ pattern ∈ (Acl.mk [] ["#"]).subscribe, topicMatches pattern "$SYS/uptime" = true := by
  decide

end Relay
