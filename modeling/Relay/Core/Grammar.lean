import Relay.Core.Topic

/-! # The grammar of topic filters

`TopicFilter::parse` splits a filter at its separators and looks at one level after
the other. The rules are usually stated on the characters of the filter: which
character may stand before and after a wildcard. Both accept the same strings; the
proof takes the text apart at its first separator.
-/

namespace Relay

/-! ## Positions -/

/-- What stands before a position ends with a separator, or nothing stands there. -/
def LevelStart (before : List Char) : Prop := before = [] ∨ before.getLast? = some '/'

def LevelEnd (after : List Char) : Prop := after = [] ∨ after.head? = some '/'

/-- The rules on wildcards by position: `#` is the last character and a level of its
own, `+` is a level of its own. -/
structure Grammatical (text : List Char) : Prop where
  hash : ∀ before after, text = before ++ '#' :: after → after = [] ∧ LevelStart before
  plus : ∀ before after, text = before ++ '+' :: after → LevelStart before ∧ LevelEnd after

theorem levelStart_iff_of_not_mem {before : List Char} (hsep : '/' ∉ before) :
    LevelStart before ↔ before = [] := by
  constructor
  · rintro (hnil | hlast)
    · exact hnil
    · exact absurd (List.mem_of_getLast? hlast) hsep
  · exact Or.inl

theorem levelEnd_iff_of_not_mem {after : List Char} (hsep : '/' ∉ after) :
    LevelEnd after ↔ after = [] := by
  constructor
  · rintro (hnil | hhead)
    · exact hnil
    · exact absurd (List.mem_of_head? hhead) hsep
  · exact Or.inl

theorem levelStart_append_cons (level before : List Char) :
    LevelStart (level ++ '/' :: before) ↔ LevelStart before := by
  unfold LevelStart
  cases before with
  | nil => simp
  | cons c before => simp [List.getLast?_append]

theorem levelEnd_append_cons {after : List Char} (hsep : '/' ∉ after) (rest : List Char) :
    LevelEnd (after ++ '/' :: rest) ↔ after = [] := by
  cases after with
  | nil => simp [LevelEnd]
  | cons c after =>
      have hc : c ≠ '/' := fun heq => hsep (heq ▸ List.mem_cons_self)
      simp [LevelEnd, hc]

/-! ## One level -/

/-- The check of one level in terms of its characters. -/
theorem levelAccepted_iff {isLast : Bool} {level : String} :
    levelAccepted isLast level = true ↔
      ('#' ∈ level.toList → level.toList = ['#'] ∧ isLast = true) ∧
        ('+' ∈ level.toList → level.toList = ['+']) := by
  have hhash : level = "#" ↔ level.toList = ['#'] := String.toList_inj.symm
  have hplus : level = "+" ↔ level.toList = ['+'] := String.toList_inj.symm
  unfold levelAccepted
  rw [← hhash, ← hplus]
  split_ifs with h₁ h₂
  · simp only [false_iff]
    rintro ⟨hlevel, -⟩
    obtain ⟨rfl, rfl⟩ := hlevel h₁.1
    simp at h₁
  · simp only [false_iff]
    rintro ⟨-, hlevel⟩
    exact h₂.2 (hlevel h₂.1)
  · simp only [true_iff]
    refine ⟨fun hmem => ?_, fun hmem => by_contra fun hne => h₂ ⟨hmem, hne⟩⟩
    have hboth := not_or.mp fun hor => h₁ ⟨hmem, hor⟩
    exact ⟨not_not.mp hboth.1, by simpa using hboth.2⟩

/-- A level has no separator on either side of a position. -/
theorem not_mem_of_position {level before after : List Char} {c : Char} (hsep : '/' ∉ level)
    (hlevel : level = before ++ c :: after) : '/' ∉ before ∧ '/' ∉ after := by
  subst hlevel
  simp only [List.mem_append, List.mem_cons, not_or] at hsep
  exact ⟨hsep.1, hsep.2.2⟩

/-- The only level of a text. -/
theorem grammatical_level_iff {level : String} (hsep : '/' ∉ level.toList) :
    Grammatical level.toList ↔ levelAccepted true level = true := by
  simp only [levelAccepted_iff, and_true, ← Text.forall_position_alone_iff]
  constructor
  · intro hgrammar
    constructor
    · intro before after hlevel
      obtain ⟨hafter, hstart⟩ := hgrammar.hash before after hlevel
      exact ⟨(levelStart_iff_of_not_mem (not_mem_of_position hsep hlevel).1).mp hstart, hafter⟩
    · intro before after hlevel
      obtain ⟨hbefore, hafter⟩ := not_mem_of_position hsep hlevel
      obtain ⟨hstart, hend⟩ := hgrammar.plus before after hlevel
      exact ⟨(levelStart_iff_of_not_mem hbefore).mp hstart, (levelEnd_iff_of_not_mem hafter).mp hend⟩
  · rintro ⟨hhash, hplus⟩
    constructor
    · intro before after hlevel
      obtain ⟨hbefore, hafter⟩ := hhash before after hlevel
      exact ⟨hafter, Or.inl hbefore⟩
    · intro before after hlevel
      obtain ⟨hbefore, hafter⟩ := hplus before after hlevel
      exact ⟨Or.inl hbefore, Or.inl hafter⟩

/-- The first level of a text with more levels after it. -/
theorem grammatical_append_cons_iff {level : String} (hsep : '/' ∉ level.toList)
    (rest : List Char) :
    Grammatical (level.toList ++ '/' :: rest) ↔
      levelAccepted false level = true ∧ Grammatical rest := by
  have hsplit : Grammatical (level.toList ++ '/' :: rest) ↔
      (∀ before after, level.toList = before ++ '#' :: after → False) ∧
        (∀ before after, level.toList = before ++ '+' :: after → before = [] ∧ after = []) ∧
          Grammatical rest := by
    constructor
    · intro hgrammar
      obtain ⟨hhash, hhash'⟩ := (Text.forall_position_append_cons (by decide)).mp hgrammar.hash
      obtain ⟨hplus, hplus'⟩ := (Text.forall_position_append_cons (by decide)).mp hgrammar.plus
      refine ⟨fun before after hlevel => ?_, fun before after hlevel => ?_, ?_, ?_⟩
      · simpa using (hhash before after hlevel).1
      · obtain ⟨hbefore, hafter⟩ := not_mem_of_position hsep hlevel
        obtain ⟨hstart, hend⟩ := hplus before after hlevel
        exact ⟨(levelStart_iff_of_not_mem hbefore).mp hstart,
          (levelEnd_append_cons hafter rest).mp hend⟩
      · intro before after hrest
        obtain ⟨hafter, hstart⟩ := hhash' before after hrest
        exact ⟨hafter, (levelStart_append_cons _ before).mp hstart⟩
      · intro before after hrest
        obtain ⟨hstart, hend⟩ := hplus' before after hrest
        exact ⟨(levelStart_append_cons _ before).mp hstart, hend⟩
    · rintro ⟨hhash, hplus, hgrammar⟩
      constructor
      · refine (Text.forall_position_append_cons (by decide)).mpr ⟨?_, ?_⟩
        · intro before after hlevel
          exact (hhash before after hlevel).elim
        · intro before after hrest
          obtain ⟨hafter, hstart⟩ := hgrammar.hash before after hrest
          exact ⟨hafter, (levelStart_append_cons _ before).mpr hstart⟩
      · refine (Text.forall_position_append_cons (by decide)).mpr ⟨?_, ?_⟩
        · intro before after hlevel
          obtain ⟨hbefore, hafter⟩ := hplus before after hlevel
          subst hafter
          exact ⟨Or.inl hbefore, Or.inr rfl⟩
        · intro before after hrest
          obtain ⟨hstart, hend⟩ := hgrammar.plus before after hrest
          exact ⟨(levelStart_append_cons _ before).mpr hstart, hend⟩
  have hnone : (∀ before after, level.toList = before ++ '#' :: after → False) ↔
      '#' ∉ level.toList := by
    constructor
    · intro hall hmem
      obtain ⟨before, after, hlevel⟩ := List.append_of_mem hmem
      exact hall before after hlevel
    · intro hmem before after hlevel
      exact hmem (by simp [hlevel])
  rw [hsplit, hnone, Text.forall_position_alone_iff, levelAccepted_iff]
  simp only [Bool.false_eq_true, and_false, imp_false, and_assoc]

/-! ## All levels -/

/-- The check level by level is the rule by position on the whole text. -/
theorem grammatical_join_iff {parts : List String} (hne : parts ≠ [])
    (hsep : ∀ part ∈ parts, '/' ∉ part.toList) :
    Grammatical (Text.join '/' parts).toList ↔ levelsAccepted parts = true := by
  induction parts with
  | nil => exact absurd rfl hne
  | cons level rest ih =>
      obtain ⟨hlevel, hrest⟩ := List.forall_mem_cons.mp hsep
      cases rest with
      | nil =>
          rw [Text.join_singleton, levelsAccepted]
          exact grammatical_level_iff hlevel
      | cons next rest =>
          rw [Text.toList_join_cons, grammatical_append_cons_iff hlevel,
            ih (List.cons_ne_nil next rest) hrest, levelsAccepted, Bool.and_eq_true]

/-- A filter is accepted exactly when it is not empty and its wildcards stand where the
rules on character positions allow them, and it keeps the string it was given. -/
theorem parse_isSome_iff_positions (s : String) :
    ((TopicFilter.parse s).isSome = true ↔
      s ≠ "" ∧
        (∀ before after, s.toList = before ++ '#' :: after →
          after = [] ∧ (before = [] ∨ before.getLast? = some '/')) ∧
        ∀ before after, s.toList = before ++ '+' :: after →
          (before = [] ∨ before.getLast? = some '/') ∧
            (after = [] ∨ after.head? = some '/')) ∧
      ∀ filter, TopicFilter.parse s = some filter → filter.asStr = s := by
  refine ⟨?_, fun filter => TopicFilter.parse_eq_some_iff.mp⟩
  have hlevels : levelsAccepted (levels s) = true ↔ Grammatical s.toList := by
    have hjoin := grammatical_join_iff (levels_ne_nil s) fun _ => Text.not_mem_of_mem_split
    rw [← hjoin, levels, Text.join_split]
  have hparse : (TopicFilter.parse s).isSome = filterAccepted s := by
    unfold TopicFilter.parse
    split <;> simp_all
  rw [hparse, filterAccepted, Bool.and_eq_true, decide_eq_true_eq, hlevels]
  exact and_congr_right fun _ => ⟨fun h => ⟨h.hash, h.plus⟩, fun h => ⟨h.1, h.2⟩⟩

end Relay
