import Mathlib

/-! # String operations on the characters of a string

Splitting, joining and stripping are defined on the list of characters, so that
they evaluate and so that the list lemmas of the library apply to them. The
behaviour is that of the usual byte-string interfaces: a separator is a single
character, splitting keeps empty parts, and the empty string has one part.
-/

namespace Text

/-- All parts of `s` between the separators; there is always at least one. -/
def split (sep : Char) (s : String) : List String :=
  (s.toList.splitOn sep).map String.ofList

def join (sep : Char) (parts : List String) : String :=
  String.ofList ([sep].intercalate (parts.map String.toList))

def startsWithChar (c : Char) (s : String) : Bool :=
  s.toList.head? == some c

def startsWith (pre s : String) : Bool :=
  pre.toList.isPrefixOf s.toList

def strip (pre s : String) : Option String :=
  if startsWith pre s then some (String.ofList (s.toList.drop pre.toList.length)) else none

/-- The text before and after the first separator. -/
def splitOnce (sep : Char) (s : String) : Option (String × String) :=
  if sep ∈ s.toList then
    some (String.ofList (s.toList.takeWhile (· != sep)),
      String.ofList ((s.toList.dropWhile (· != sep)).drop 1))
  else none

/-- A decimal number below a bound: digits, at least one, after an optional plus
sign. -/
def parseNat (bound : Nat) (s : String) : Option Nat :=
  let digits : List Char := match s.toList with
    | '+' :: rest => rest
    | all => all
  let value := digits.foldl (fun acc d => acc * 10 + (d.toNat - '0'.toNat)) 0
  if digits ≠ [] ∧ digits.all Char.isDigit ∧ value < bound then some value else none

/-- Even the empty text has a part. -/
theorem split_ne_nil (sep : Char) (s : String) : split sep s ≠ [] := by
  simp [split, List.splitOn_ne_nil]

/-- Parts without separators are recovered from their join. -/
theorem split_join (sep : Char) (parts : List String) (hne : parts ≠ [])
    (hsep : ∀ part ∈ parts, sep ∉ part.toList) : split sep (join sep parts) = parts := by
  unfold split join
  rw [String.toList_ofList, List.splitOn_intercalate]
  · simp [List.map_map, Function.comp_def, String.ofList_toList]
  · intro l hl
    obtain ⟨part, hpart, rfl⟩ := List.mem_map.mp hl
    exact hsep part hpart
  · simpa using hne

/-- A string is the join of its parts. -/
theorem join_split (sep : Char) (s : String) : join sep (split sep s) = s := by
  unfold split join
  simp only [List.map_map, Function.comp_def, String.toList_ofList, List.map_id']
  rw [List.intercalate_splitOn, String.ofList_toList]

theorem join_singleton (sep : Char) (part : String) : join sep [part] = part := by
  simp [join, String.ofList_toList]

theorem toList_join_cons (sep : Char) (part next : String) (rest : List String) :
    (join sep (part :: next :: rest)).toList =
      part.toList ++ sep :: (join sep (next :: rest)).toList := by
  simp [join, List.intercalate_cons_cons]

/-- Text around a separator splits into the parts of both sides. -/
theorem split_append (sep : Char) (before after : String) :
    split sep (before ++ String.singleton sep ++ after) = split sep before ++ split sep after := by
  have hlist : (before ++ String.singleton sep ++ after).toList =
      before.toList ++ sep :: after.toList := by simp [String.toList_append]
  unfold split
  rw [hlist, List.splitOn_append_cons_self, List.map_append]

/-- A string without separators is its only part. -/
theorem split_of_not_mem {sep : Char} {s : String} (hsep : sep ∉ s.toList) : split sep s = [s] := by
  unfold split
  rw [List.splitOn_eq_singleton hsep, List.map_singleton, String.ofList_toList]

/-- There is one part more than there are separators. -/
theorem length_split (sep : Char) (s : String) :
    (split sep s).length = s.toList.count sep + 1 := by
  unfold split
  rw [List.length_map]
  induction s.toList with
  | nil => simp
  | cons c cs ih =>
      rw [List.splitOn_cons_eq_if_modifyHead]
      by_cases hc : c = sep
      · simp [hc, ih]
      · simp [hc, ih]

/-- The characters of a join are separators and characters of the parts. -/
theorem mem_join {sep c : Char} {parts : List String} (hc : c ∈ (join sep parts).toList) :
    c = sep ∨ ∃ part ∈ parts, c ∈ part.toList := by
  unfold join at hc
  rw [String.toList_ofList] at hc
  induction parts with
  | nil => simp [List.intercalate] at hc
  | cons part rest ih =>
      cases rest with
      | nil =>
          simp only [List.map_cons, List.map_nil, List.intercalate_singleton] at hc
          exact Or.inr ⟨part, List.mem_singleton_self part, hc⟩
      | cons next rest =>
          simp only [List.map_cons, List.intercalate_cons_cons, List.mem_append,
            List.mem_singleton, or_assoc] at hc ih
          rcases hc with hc | rfl | hc
          · exact Or.inr ⟨part, List.mem_cons_self, hc⟩
          · exact Or.inl rfl
          · rcases ih hc with heq | ⟨part', hpart', hc'⟩
            · exact Or.inl heq
            · exact Or.inr ⟨part', List.mem_cons_of_mem part hpart', hc'⟩

/-- The characters of the parts are characters of the join. -/
theorem mem_join_of_mem {sep c : Char} {parts : List String} {part : String} (hpart : part ∈ parts)
    (hc : c ∈ part.toList) : c ∈ (join sep parts).toList := by
  unfold join
  rw [String.toList_ofList]
  induction parts with
  | nil => cases hpart
  | cons first rest ih =>
      cases rest with
      | nil =>
          rw [List.mem_singleton] at hpart
          subst hpart
          simpa using hc
      | cons next rest =>
          simp only [List.map_cons, List.intercalate_cons_cons, List.mem_append] at ih ⊢
          rcases List.mem_cons.mp hpart with rfl | hpart
          · exact Or.inl (Or.inl hc)
          · exact Or.inr (ih hpart)

/-- The characters of a part are characters of the string. -/
theorem mem_of_mem_split {sep c : Char} {s part : String} (hpart : part ∈ split sep s)
    (hc : c ∈ part.toList) : c ∈ s.toList := by
  have hjoin : c ∈ (join sep (split sep s)).toList := mem_join_of_mem hpart hc
  rwa [join_split] at hjoin

/-- No part of a split string contains the separator. -/
theorem not_mem_of_mem_split {sep : Char} {s part : String} (hpart : part ∈ split sep s) :
    sep ∉ part.toList := by
  obtain ⟨l, hl, rfl⟩ := List.mem_map.mp hpart
  rw [String.toList_ofList]
  clear hpart
  generalize s.toList = cs at hl
  induction cs generalizing l with
  | nil =>
      rw [List.splitOn_nil, List.mem_singleton] at hl
      simp [hl]
  | cons c cs ih =>
      rw [List.splitOn_cons_eq_if_modifyHead] at hl
      split at hl
      next =>
        rcases List.mem_cons.mp hl with rfl | hl
        · exact List.not_mem_nil
        · exact ih l hl
      next hne =>
        cases hsplit : cs.splitOn sep with
        | nil => exact absurd hsplit (List.splitOn_ne_nil sep cs)
        | cons head tail =>
            rw [hsplit, List.modifyHead_cons] at hl
            rcases List.mem_cons.mp hl with rfl | hl
            · have hhead := ih head (hsplit ▸ List.mem_cons_self)
              simp only [List.mem_cons, not_or]
              exact ⟨fun heq => hne (by simp [heq]), hhead⟩
            · exact ih l (hsplit ▸ List.mem_cons_of_mem head hl)

/-- A string and its first part begin with the same character, unless that
character is the separator. -/
theorem startsWithChar_headD_split {sep c : Char} (hc : c ≠ sep) (s : String) :
    startsWithChar c ((split sep s).headD "") = startsWithChar c s := by
  unfold startsWithChar split
  cases hs : s.toList with
  | nil => simp
  | cons d cs =>
      rw [List.splitOn_cons_eq_if_modifyHead]
      by_cases hd : d = sep
      · simp [hd, Ne.symm hc]
      · cases hsplit : cs.splitOn sep with
        | nil => exact absurd hsplit (List.splitOn_ne_nil sep cs)
        | cons head tail => simp [hd]

theorem startsWith_iff {pre s : String} : startsWith pre s = true ↔ ∃ rest, s = pre ++ rest := by
  unfold startsWith
  rw [List.isPrefixOf_iff_prefix]
  constructor
  · rintro ⟨tail, htail⟩
    refine ⟨String.ofList tail, String.toList_injective ?_⟩
    rw [String.toList_append, String.toList_ofList, htail]
  · rintro ⟨rest, rfl⟩
    exact ⟨rest.toList, (String.toList_append ..).symm⟩

/-- What is stripped off is found again in front of what remains. -/
theorem strip_eq_some_iff {pre s rest : String} :
    strip pre s = some rest ↔ s = pre ++ rest := by
  unfold strip startsWith
  constructor
  · intro h
    split at h
    next hpre =>
      rw [Option.some.injEq] at h
      subst rest
      obtain ⟨tail, htail⟩ := List.isPrefixOf_iff_prefix.mp hpre
      apply String.toList_injective
      rw [String.toList_append, String.toList_ofList, ← htail, List.drop_left]
    next => cases h
  · rintro rfl
    simp [String.toList_append, String.ofList_toList]

/-- The first separator is the one that no other stands before. -/
theorem splitOnce_eq_some_iff {sep : Char} {s before after : String} :
    splitOnce sep s = some (before, after) ↔
      sep ∉ before.toList ∧ s = before ++ String.singleton sep ++ after := by
  unfold splitOnce
  constructor
  · intro h
    split at h
    next hmem =>
      simp only [Option.some.injEq, Prod.mk.injEq] at h
      obtain ⟨rfl, rfl⟩ := h
      have hbefore : sep ∉ s.toList.takeWhile (· != sep) := by
        intro hsep
        simpa using List.mem_takeWhile_imp hsep
      refine ⟨by simpa using hbefore, ?_⟩
      apply String.toList_injective
      have hdrop : s.toList.dropWhile (· != sep) =
          sep :: (s.toList.dropWhile (· != sep)).drop 1 := by
        cases hrest : s.toList.dropWhile (· != sep) with
        | nil =>
            have hall := List.dropWhile_eq_nil_iff.mp hrest sep hmem
            simp at hall
        | cons c cs =>
            have hc := List.head_dropWhile_not (· != sep) (l := s.toList) (by simp [hrest])
            simp only [hrest, List.head_cons, bne_eq_false_iff_eq] at hc
            simp [hc]
      calc s.toList
          = s.toList.takeWhile (· != sep) ++ s.toList.dropWhile (· != sep) :=
            List.takeWhile_append_dropWhile.symm
        _ = s.toList.takeWhile (· != sep) ++ sep :: (s.toList.dropWhile (· != sep)).drop 1 := by
            rw [← hdrop]
        _ = _ := by simp [String.toList_append]
    next => cases h
  · rintro ⟨hbefore, rfl⟩
    have hlist : (before ++ String.singleton sep ++ after).toList =
        before.toList ++ sep :: after.toList := by simp [String.toList_append]
    have hall : ∀ c ∈ before.toList, (c != sep) = true := by
      intro c hc
      simp only [bne_iff_ne, ne_eq]
      rintro rfl
      exact hbefore hc
    rw [hlist, if_pos (by simp)]
    rw [List.takeWhile_append_of_pos hall, List.dropWhile_append_of_pos hall]
    simp [String.ofList_toList]

theorem splitOnce_of_not_mem {sep : Char} {s : String} (hsep : sep ∉ s.toList) :
    splitOnce sep s = none := by
  rw [splitOnce, if_neg hsep]

/-! ## Positions of a character -/

/-- What holds at every position of an element other than the separator, on both
sides of a separator. -/
theorem forall_position_append_cons {A : Type} {sep c : A} (hc : c ≠ sep) {front back : List A}
    {P : List A → List A → Prop} :
    (∀ before after, front ++ sep :: back = before ++ c :: after → P before after) ↔
      (∀ before after, front = before ++ c :: after → P before (after ++ sep :: back)) ∧
        ∀ before after, back = before ++ c :: after → P (front ++ sep :: before) after := by
  constructor
  · intro hall
    constructor
    · rintro before after rfl
      exact hall before (after ++ sep :: back) (by simp)
    · rintro before after rfl
      exact hall (front ++ sep :: before) after (by simp)
  · rintro ⟨hfront, hback⟩ before after heq
    rcases List.append_eq_append_iff.mp heq with ⟨tail, rfl, htail⟩ | ⟨tail, rfl, htail⟩
    · cases tail with
      | nil => exact absurd (List.cons.inj htail).1.symm hc
      | cons d tail =>
          obtain ⟨rfl, hrest⟩ := List.cons.inj htail
          exact hback tail after hrest
    · cases tail with
      | nil => exact absurd (List.cons.inj htail).1 hc
      | cons d tail =>
          obtain ⟨rfl, rfl⟩ := List.cons.inj htail
          exact hfront before tail rfl

/-- An element stands alone wherever it stands, if the list is that element. -/
theorem forall_position_alone_iff {A : Type} {c : A} {l : List A} :
    (∀ before after, l = before ++ c :: after → before = [] ∧ after = []) ↔
      (c ∈ l → l = [c]) := by
  constructor
  · intro hall hmem
    obtain ⟨before, after, rfl⟩ := List.append_of_mem hmem
    obtain ⟨rfl, rfl⟩ := hall before after rfl
    rfl
  · rintro hsole before after rfl
    have hone := hsole (by simp)
    rcases before with _ | ⟨d, before⟩
    · exact ⟨rfl, (List.cons.inj hone).2⟩
    · simp at hone

end Text
