import Mathlib

/-! # Ordered tables

A table of an ordered key-value store: rows in strictly increasing key order.
The rows are determined by the lookups, so appending a row after the last one
and removing the first one are list operations on the rows.
-/

abbrev Table (K V : Type) [Ord K] := Std.TreeMap K V

namespace Table

/-- Remove the rows with the given keys, one after the other. -/
def eraseAll {K V : Type} [Ord K] (t : Table K V) (keys : List K) : Table K V :=
  keys.foldl (fun t k => t.erase k) t

/-- Erasing keys one by one is erasing the set of them. -/
theorem getElem?_eraseAll {K V : Type} [Ord K] [Std.TransOrd K] [Std.LawfulEqOrd K]
    [DecidableEq K] (t : Table K V) (keys : List K) (k : K) :
    (eraseAll t keys)[k]? = if k ∈ keys then none else t[k]? := by
  induction keys generalizing t with
  | nil => simp [eraseAll]
  | cons k' keys ih =>
      rw [eraseAll, List.foldl_cons, ← eraseAll, ih, Std.TreeMap.getElem?_erase]
      by_cases hmem : k ∈ keys
      · simp [hmem]
      · by_cases heq : k = k'
        · subst k'
          simp [Std.ReflCmp.compare_self]
        · have hcmp : compare k' k ≠ .eq := fun h => heq (Std.LawfulEqOrd.eq_of_compare h).symm
          simp [hmem, heq, hcmp]

variable {K V : Type} [LinearOrder K]

def first? (t : Table K V) : Option (K × V) := t.toList.head?

def last? (t : Table K V) : Option (K × V) := t.toList.getLast?

/-- Rows whose key is at least `low`, in key order. -/
def range (t : Table K V) (low : K) : List (K × V) := t.toList.filter fun row => low ≤ row.1

/-- A table lists its rows by ascending key. -/
theorem pairwise_toList (t : Table K V) : t.toList.Pairwise fun a b => a.1 < b.1 := by
  refine t.ordered_keys_toList.imp ?_
  intro a b h
  exact compare_lt_iff_lt.mp h

/-- Rows in increasing order are determined by which rows there are. -/
theorem eq_of_mem_iff {rows rows' : List (K × V)} (hsorted : rows.Pairwise fun a b => a.1 < b.1)
    (hsorted' : rows'.Pairwise fun a b => a.1 < b.1) (hmem : ∀ row, row ∈ rows ↔ row ∈ rows') :
    rows = rows' := by
  have hnodup : ∀ l : List (K × V), (l.Pairwise fun a b => a.1 < b.1) → l.Nodup := by
    intro l hl
    exact hl.imp fun h heq => absurd (heq ▸ h) (lt_irrefl _)
  have hperm : rows.Perm rows' :=
    (List.perm_ext_iff_of_nodup (hnodup _ hsorted) (hnodup _ hsorted')).mpr hmem
  refine hperm.eq_of_pairwise ?_ hsorted hsorted'
  intro a b _ _ hab hba
  exact absurd (lt_trans hab hba) (lt_irrefl _)

/-- The rows are the increasing list with the table's lookups. -/
theorem toList_eq_of_mem_iff {t : Table K V} {rows : List (K × V)}
    (hsorted : rows.Pairwise fun a b => a.1 < b.1)
    (hmem : ∀ k v, (k, v) ∈ rows ↔ t[k]? = some v) : t.toList = rows := by
  refine eq_of_mem_iff (pairwise_toList t) hsorted ?_
  rintro ⟨k, v⟩
  rw [hmem, Std.TreeMap.mem_toList_iff_getElem?_eq_some]

/-- Two tables with the same rows under some keys list these rows alike. -/
theorem filter_toList_congr {t t' : Table K V} {p : K → Bool}
    (hrows : ∀ k, p k = true → t'[k]? = t[k]?) :
    t'.toList.filter (fun row => p row.1) = t.toList.filter fun row => p row.1 := by
  refine eq_of_mem_iff ((pairwise_toList t').filter _) ((pairwise_toList t).filter _) ?_
  rintro ⟨k, v⟩
  simp only [List.mem_filter, Std.TreeMap.mem_toList_iff_getElem?_eq_some, and_congr_left_iff]
  intro hk
  rw [hrows k hk]

/-- A key has one row at most. -/
theorem filter_key_toList (t : Table K V) (k : K) :
    t.toList.filter (fun row => row.1 = k) = t[k]?.toList.map fun v => (k, v) := by
  have hmem : ∀ v, (k, v) ∈ t.toList ↔ t[k]? = some v := fun v =>
    Std.TreeMap.mem_toList_iff_getElem?_eq_some
  have hsorted := pairwise_toList t
  revert hmem hsorted
  generalize t[k]? = found
  generalize t.toList = rows
  intro hmem hsorted
  induction rows generalizing found with
  | nil =>
      cases found with
      | none => rfl
      | some v => exact absurd ((hmem v).mpr rfl) (by simp)
  | cons row rest ih =>
      obtain ⟨k', v⟩ := row
      rw [List.pairwise_cons] at hsorted
      by_cases hk : k' = k
      · subst hk
        have hrest : rest.filter (fun row => row.1 = k') = [] := by
          rw [List.filter_eq_nil_iff]
          intro row hrow heq
          exact lt_irrefl _ ((hsorted.1 row hrow).trans_eq (of_decide_eq_true heq))
        rw [(hmem v).mp List.mem_cons_self]
        simp [hrest]
      · have hskip := ih found (fun v' => (by simp [← hmem v', Ne.symm hk])) hsorted.2
        simpa [hk] using hskip

/-- A key above all others is inserted at the end. -/
theorem toList_insert_last {t : Table K V} {k : K} (v : V)
    (hlast : ∀ row ∈ t.toList, row.1 < k) : (t.insert k v).toList = t.toList ++ [(k, v)] := by
  apply toList_eq_of_mem_iff
  · rw [List.pairwise_append]
    refine ⟨pairwise_toList t, List.pairwise_singleton _ _, ?_⟩
    intro a ha b hb
    rw [List.mem_singleton] at hb
    subst b
    exact hlast a ha
  · intro k' v'
    rw [List.mem_append, List.mem_singleton, Std.TreeMap.getElem?_insert,
      Std.TreeMap.mem_toList_iff_getElem?_eq_some]
    by_cases heq : compare k k' = .eq
    · have hk : k = k' := Std.LawfulEqOrd.eq_of_compare heq
      subst k'
      have habsent : t[k]? ≠ some v' := fun hsome =>
        lt_irrefl _ (hlast (k, v') (Std.TreeMap.mem_toList_iff_getElem?_eq_some.mpr hsome))
      simp [habsent, eq_comm]
    · have hk : k' ≠ k := fun h => heq (h ▸ Std.ReflCmp.compare_self)
      simp [heq, hk]

theorem mem_toList_of_insert {t : Table K V} {k : K} {v : V} {row : K × V}
    (hrow : row ∈ (t.insert k v).toList) : row = (k, v) ∨ row ∈ t.toList := by
  obtain ⟨k', v'⟩ := row
  rw [Std.TreeMap.mem_toList_iff_getElem?_eq_some, Std.TreeMap.getElem?_insert] at hrow
  split at hrow
  next heq =>
    cases hrow
    exact Or.inl (by rw [Std.LawfulEqOrd.eq_of_compare heq])
  next => exact Or.inr (Std.TreeMap.mem_toList_iff_getElem?_eq_some.mpr hrow)

/-- Erasing the first row leaves the rest in order. -/
theorem toList_erase_first {t : Table K V} {row : K × V} {rest : List (K × V)}
    (hrows : t.toList = row :: rest) : (t.erase row.1).toList = rest := by
  have hsorted := pairwise_toList t
  rw [hrows, List.pairwise_cons] at hsorted
  apply toList_eq_of_mem_iff hsorted.2
  intro k v
  have hmem := t.mem_toList_iff_getElem?_eq_some (k := k) (v := v)
  rw [hrows, List.mem_cons] at hmem
  rw [Std.TreeMap.getElem?_erase]
  by_cases heq : compare row.1 k = .eq
  · have hk : row.1 = k := Std.LawfulEqOrd.eq_of_compare heq
    have habsent : (k, v) ∉ rest := fun h => absurd (hsorted.1 _ h) (hk ▸ lt_irrefl _)
    simp [heq, habsent]
  · have hne : (k, v) ≠ row := fun h => heq (h ▸ Std.ReflCmp.compare_self)
    simpa [heq, hne] using hmem

end Table
