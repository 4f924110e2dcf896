import Relay.Server.Auth

/-! # Reading a template

Every pattern has one reading from left to right: texts without an opening brace, each
followed by a placeholder whose key runs up to the next closing brace, and a last
text. The last text has an opening brace only if that brace is never closed.
Substitution follows this reading: it fails exactly on a brace that is never closed or
a key without a value, and values are copied without being read again.
-/

namespace Relay

/-- No further placeholder can be read: there is no opening brace, or no closing one
after the first. -/
def Exhausted (tail : String) : Prop :=
  '\x7b' ∉ tail.toList ∨ ∃ literal rest, '\x7b' ∉ literal.toList ∧ '\x7d' ∉ rest.toList ∧
    tail = literal ++ String.singleton '\x7b' ++ rest

/-- A pattern read as far as it goes. -/
@[ext] structure Scan where
  slots : List (String × String)
  tail : String
  texts : ∀ slot ∈ slots, '\x7b' ∉ slot.1.toList
  keys : ∀ slot ∈ slots, '\x7d' ∉ slot.2.toList
  exhausted : Exhausted tail

namespace Scan

def text (R : Scan) : String := templateText R.slots R.tail

def fill (R : Scan) (vars : Vars) : String := filledText vars R.slots R.tail

def cons (literal key : String) (hliteral : '\x7b' ∉ literal.toList) (hkey : '\x7d' ∉ key.toList)
    (R : Scan) : Scan where
  slots := (literal, key) :: R.slots
  tail := R.tail
  texts := List.forall_mem_cons.mpr ⟨hliteral, R.texts⟩
  keys := List.forall_mem_cons.mpr ⟨hkey, R.keys⟩
  exhausted := R.exhausted

end Scan

/-! ## One reading -/

/-- An exhausted text has no placeholder in front. -/
theorem Exhausted.splitOnce {tail : String} (htail : Exhausted tail) {literal after : String}
    (hopen : Text.splitOnce '\x7b' tail = some (literal, after)) :
    Text.splitOnce '\x7d' after = none := by
  rcases htail with hnone | ⟨literal', rest, hliteral, hrest, rfl⟩
  · rw [Text.splitOnce_of_not_mem hnone] at hopen
    cases hopen
  · rw [Text.splitOnce_eq_some_iff.mpr ⟨hliteral, rfl⟩] at hopen
    cases hopen
    exact Text.splitOnce_of_not_mem hrest

theorem exhausted_of_splitOnce {tail : String}
    (htail : ∀ literal after, Text.splitOnce '\x7b' tail = some (literal, after) →
      '\x7d' ∉ after.toList) : Exhausted tail := by
  cases hopen : Text.splitOnce '\x7b' tail with
  | none =>
      refine Or.inl fun hmem => ?_
      rw [Text.splitOnce, if_pos hmem] at hopen
      cases hopen
  | some parts =>
      obtain ⟨literal, after⟩ := parts
      obtain ⟨hliteral, heq⟩ := Text.splitOnce_eq_some_iff.mp hopen
      exact Or.inr ⟨literal, after, hliteral, htail literal after hopen, heq⟩

theorem exists_scan (pattern : String) : ∃ R : Scan, R.text = pattern := by
  obtain ⟨n, hn⟩ : ∃ n, pattern.toList.length = n := ⟨_, rfl⟩
  induction n using Nat.strong_induction_on generalizing pattern with
  | _ n ih =>
  by_cases hslot : ∃ literal after key rest, Text.splitOnce '\x7b' pattern = some (literal, after) ∧
      Text.splitOnce '\x7d' after = some (key, rest)
  · obtain ⟨literal, after, key, rest, hopen, hclose⟩ := hslot
    obtain ⟨hliteral, rfl⟩ := Text.splitOnce_eq_some_iff.mp hopen
    obtain ⟨hkey, rfl⟩ := Text.splitOnce_eq_some_iff.mp hclose
    -- the text after the placeholder is shorter
    simp only [String.toList_append, String.toList_singleton, List.length_append,
      List.length_singleton] at hn
    obtain ⟨R, hR⟩ := ih rest.toList.length (by omega) rest rfl
    refine ⟨R.cons literal key hliteral hkey, ?_⟩
    rw [← hR]
    rfl
  · refine ⟨⟨[], pattern, fun _ h => (nomatch h), fun _ h => (nomatch h), ?_⟩, rfl⟩
    refine exhausted_of_splitOnce fun literal after hopen hmem => hslot ?_
    have hclose : Text.splitOnce '\x7d' after = _ := if_pos hmem
    exact ⟨literal, after, _, _, hopen, hclose⟩

/-- Two readings of one text begin with the same placeholder, or both with none. -/
theorem templateText_inj {slots slots' : List (String × String)} {tail tail' : String}
    (htexts : ∀ slot ∈ slots, '\x7b' ∉ slot.1.toList)
    (hkeys : ∀ slot ∈ slots, '\x7d' ∉ slot.2.toList) (htail : Exhausted tail)
    (htexts' : ∀ slot ∈ slots', '\x7b' ∉ slot.1.toList)
    (hkeys' : ∀ slot ∈ slots', '\x7d' ∉ slot.2.toList) (htail' : Exhausted tail')
    (heq : templateText slots tail = templateText slots' tail') :
    slots = slots' ∧ tail = tail' := by
  have hfirst : ∀ {literal key : String} {slots : List (String × String)} (tail : String),
      '\x7b' ∉ literal.toList → '\x7d' ∉ key.toList →
      ∃ after, Text.splitOnce '\x7b' (templateText ((literal, key) :: slots) tail) =
          some (literal, after) ∧
        Text.splitOnce '\x7d' after = some (key, templateText slots tail) :=
    fun tail hliteral hkey => ⟨_, Text.splitOnce_eq_some_iff.mpr ⟨hliteral, rfl⟩,
      Text.splitOnce_eq_some_iff.mpr ⟨hkey, rfl⟩⟩
  induction slots generalizing slots' with
  | nil =>
      cases slots' with
      | nil => exact ⟨rfl, heq⟩
      | cons slot' slots' =>
          obtain ⟨after, hopen, hclose⟩ := hfirst tail' (htexts' _ List.mem_cons_self)
            (hkeys' _ List.mem_cons_self)
          rw [← heq] at hopen
          rw [htail.splitOnce hopen] at hclose
          cases hclose
  | cons slot slots ih =>
      obtain ⟨hliteral, htexts⟩ := List.forall_mem_cons.mp htexts
      obtain ⟨hkey, hkeys⟩ := List.forall_mem_cons.mp hkeys
      obtain ⟨after, hopen, hclose⟩ := hfirst tail hliteral hkey
      cases slots' with
      | nil =>
          rw [heq] at hopen
          rw [htail'.splitOnce hopen] at hclose
          cases hclose
      | cons slot' slots' =>
          obtain ⟨hliteral', htexts'⟩ := List.forall_mem_cons.mp htexts'
          obtain ⟨hkey', hkeys'⟩ := List.forall_mem_cons.mp hkeys'
          obtain ⟨after', hopen', hclose'⟩ := hfirst tail' hliteral' hkey'
          rw [heq, hopen'] at hopen
          obtain ⟨hliterals, rfl⟩ := Prod.mk.inj (Option.some.inj hopen)
          rw [hclose'] at hclose
          obtain ⟨hkeyeq, hrest⟩ := Prod.mk.inj (Option.some.inj hclose)
          obtain ⟨rfl, rfl⟩ := ih htexts hkeys htexts' hkeys' hrest.symm
          exact ⟨congrArg (· :: slots) (Prod.ext hliterals.symm hkeyeq.symm), rfl⟩

theorem Scan.eq_of_text {R R' : Scan} (heq : R.text = R'.text) : R = R' := by
  obtain ⟨hslots, htail⟩ :=
    templateText_inj R.texts R.keys R.exhausted R'.texts R'.keys R'.exhausted heq
  exact Scan.ext hslots htail

/-! ## Braces that are never closed -/

theorem toList_templateText_cons (literal key : String) (slots : List (String × String))
    (tail : String) :
    (templateText ((literal, key) :: slots) tail).toList =
      (literal.toList ++ '\x7b' :: key.toList) ++ '\x7d' :: (templateText slots tail).toList := by
  simp [templateText, String.toList_append]

/-- Without a brace in the last text, every opening brace is closed. -/
theorem closed_templateText (slots : List (String × String)) {tail : String}
    (htail : '\x7b' ∉ tail.toList) :
    ∀ before after, (templateText slots tail).toList = before ++ '\x7b' :: after →
      '\x7d' ∈ after := by
  induction slots with
  | nil =>
      intro before after heq
      exact absurd (by rw [show tail.toList = _ from heq]; simp) htail
  | cons slot slots ih =>
      obtain ⟨literal, key⟩ := slot
      rw [toList_templateText_cons]
      refine (Text.forall_position_append_cons (by decide)).mpr ⟨?_, ?_⟩
      · intro before after _
        simp
      · exact ih

theorem exists_toList_templateText (slots : List (String × String)) (tail : String) :
    ∃ front, (templateText slots tail).toList = front ++ tail.toList := by
  induction slots with
  | nil => exact ⟨[], rfl⟩
  | cons slot slots ih =>
      obtain ⟨literal, key⟩ := slot
      obtain ⟨front, hfront⟩ := ih
      exact ⟨(literal.toList ++ '\x7b' :: key.toList) ++ '\x7d' :: front, by
        rw [toList_templateText_cons, hfront]
        simp⟩

/-- The last text has a brace exactly when the pattern has one that is never closed. -/
theorem Scan.open_iff (R : Scan) :
    '\x7b' ∈ R.tail.toList ↔
      ∃ before after, R.text.toList = before ++ '\x7b' :: after ∧ '\x7d' ∉ after := by
  constructor
  · intro hmem
    rcases R.exhausted with hnone | ⟨literal, rest, -, hrest, htail⟩
    · exact absurd hmem hnone
    · obtain ⟨front, hfront⟩ := exists_toList_templateText R.slots R.tail
      refine ⟨front ++ literal.toList, rest.toList, ?_, hrest⟩
      rw [text, hfront, htail]
      simp [String.toList_append]
  · rintro ⟨before, after, heq, hafter⟩
    by_contra htail
    exact hafter (closed_templateText R.slots htail before after heq)

/-! ## Substitution -/

theorem substituteLoop_exhausted {vars : Vars} {tail : String} (htail : Exhausted tail)
    (fuel : Nat) (out : String) :
    substituteLoop vars (fuel + 1) out tail =
      if '\x7b' ∈ tail.toList then none else some (out ++ tail) := by
  by_cases hmem : '\x7b' ∈ tail.toList
  · have hopen : Text.splitOnce '\x7b' tail = _ := if_pos hmem
    have hclose := htail.splitOnce hopen
    rw [substituteLoop, hopen, if_pos hmem]
    simp only [hclose]
    rfl
  · rw [substituteLoop, Text.splitOnce_of_not_mem hmem, if_neg hmem]

theorem Scan.length_le (R : Scan) : R.slots.length ≤ R.text.toList.length :=
  length_le_templateText R.slots R.tail

/-- With fuel for every placeholder, the loop fills the reading in or fails where it
cannot. -/
theorem Scan.substituteLoop_text (R : Scan) (vars : Vars) {fuel : Nat}
    (hfuel : R.slots.length < fuel) :
    substituteLoop vars fuel "" R.text =
      if (∀ slot ∈ R.slots, (vars slot.2).isSome = true) ∧ '\x7b' ∉ R.tail.toList then
        some (R.fill vars)
      else none := by
  obtain ⟨extra, rfl⟩ := Nat.exists_eq_add_of_lt hfuel
  rw [Nat.add_assoc, text, substituteLoop_slots R.texts R.keys, fill,
    filledText_tail vars R.slots R.tail, String.empty_append]
  by_cases hvalues : ∀ slot ∈ R.slots, (vars slot.2).isSome = true
  · rw [if_pos hvalues, substituteLoop_exhausted R.exhausted, ← ite_not]
    exact if_congr (and_iff_right hvalues).symm rfl rfl
  · rw [if_neg hvalues, if_neg fun hboth => hvalues hboth.1]

/-- Every pattern has exactly one reading, and substitution is its result: the loop ends
within as many rounds as the pattern has characters, fails exactly if a brace is never
closed or a key has no value, and otherwise gives the texts and the values in order. -/
theorem substitute_eq_reading (vars : Vars) (pattern : String) :
    (∃! R : Scan, R.text = pattern) ∧
      (∀ fuel, pattern.toList.length < fuel →
        substituteLoop vars fuel "" pattern = substitute vars pattern) ∧
      ∀ R : Scan, R.text = pattern →
        (substitute vars pattern = none ↔
          (∃ before after, pattern.toList = before ++ '\x7b' :: after ∧ '\x7d' ∉ after) ∨
            ∃ slot ∈ R.slots, vars slot.2 = none) ∧
        ∀ out, substitute vars pattern = some out → out = R.fill vars := by
  obtain ⟨R, rfl⟩ := exists_scan pattern
  have hloop : ∀ fuel, R.text.toList.length < fuel → substituteLoop vars fuel "" R.text = _ :=
    fun fuel hfuel => R.substituteLoop_text vars (R.length_le.trans_lt hfuel)
  have hsub : substitute vars R.text = _ := hloop _ (Nat.lt_succ_self _)
  refine ⟨⟨R, rfl, fun R' => Scan.eq_of_text⟩, fun fuel hfuel => (hloop fuel hfuel).trans hsub.symm,
    ?_⟩
  intro R' hR'
  obtain rfl := Scan.eq_of_text hR'
  rw [hsub, ← R'.open_iff]
  constructor
  · by_cases htail : '\x7b' ∈ R'.tail.toList
    · simp [htail]
    · simp [htail, Option.isSome_iff_ne_none]
  · intro out hout
    split at hout
    · exact (Option.some.inj hout).symm
    · cases hout

/-- A value that looks like a placeholder is copied, and an unclosed brace fails. -/
theorem substitute_eq_reading_braces :
    let vars : Vars := fun key => if key = "k" then some "\x7bsub\x7d" else none
    substitute vars "a/\x7bk\x7d/b" = some "a/\x7bsub\x7d/b" ∧
      substitute vars "a/\x7bk\x7d/\x7bk" = none := by
  intro vars
  obtain ⟨⟨R, hR, -⟩, -, hread⟩ := substitute_eq_reading vars "a/\x7bk\x7d/\x7bk"
  refine ⟨by decide, ?_⟩
  exact (hread R hR).1.mpr (Or.inl ⟨"a/\x7bk\x7d/".toList, ['k'], by decide, by decide⟩)

end Relay
