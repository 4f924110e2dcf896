import Mathlib

/-! # Finite maps in iteration order

A hash map is an association list without repeated keys; the order of the list
is the order in which iteration visits the entries. On top of the library's
`AList` this adds the operations that go over all entries: mapping the values
and retaining the entries that satisfy a predicate. The second part is about
lists used as small maps: update the first entry with a key, or append one.
-/

abbrev AssocMap (K V : Type) := AList (fun _ : K => V)

namespace AssocMap

variable {K V W : Type}

/-- Change every value, keeping keys and order. -/
def mapVal (f : K → V → W) (m : AssocMap K V) : AssocMap K W where
  entries := m.entries.map fun e => ⟨e.1, f e.1 e.2⟩
  nodupKeys := by
    rw [List.NodupKeys, List.keys, List.map_map]
    exact m.nodupKeys

def retain (p : K → V → Bool) (m : AssocMap K V) : AssocMap K V where
  entries := m.entries.filter fun e => p e.1 e.2
  nodupKeys := m.nodupKeys.sublist List.filter_sublist

def values (m : AssocMap K V) : List V := m.entries.map Sigma.snd

@[simp] theorem keys_mapVal (f : K → V → W) (m : AssocMap K V) :
    (m.mapVal f).keys = m.keys := by
  simp [mapVal, AList.keys, List.keys]

variable [DecidableEq K]

/-- A map holds an entry exactly when looking its key up finds its value: no key occurs
twice. -/
theorem mem_entries_iff {m : AssocMap K V} {k : K} {v : V} :
    (⟨k, v⟩ : Sigma fun _ : K => V) ∈ m.entries ↔ m.lookup k = some v := by
  rw [← AList.mem_lookup_iff, Option.mem_def]

/-- Membership among the values, without the order in which a map iterates. -/
theorem mem_values_iff {m : AssocMap K V} {v : V} :
    v ∈ m.values ↔ ∃ k, m.lookup k = some v := by
  simp only [values, List.mem_map]
  constructor
  · rintro ⟨⟨k, v⟩, hmem, rfl⟩
    exact ⟨k, mem_entries_iff.mp hmem⟩
  · rintro ⟨k, hk⟩
    exact ⟨⟨k, v⟩, mem_entries_iff.mpr hk, rfl⟩

theorem mem_keys_iff {m : AssocMap K V} {k : K} : k ∈ m.keys ↔ ∃ v, m.lookup k = some v := by
  rw [← AList.mem_keys, ← AList.lookup_isSome, Option.isSome_iff_exists]

/-- A map whose lookups agree with a second one on membership of entries has
the same lookups. -/
theorem lookup_eq_of_mem_iff {m : AssocMap K V} {k : K} {r : Option V}
    (h : ∀ v, (⟨k, v⟩ : Sigma fun _ : K => V) ∈ m.entries ↔ r = some v) : m.lookup k = r := by
  apply Option.ext
  intro v
  rw [← mem_entries_iff, h]

@[simp] theorem lookup_mapVal (f : K → V → W) (m : AssocMap K V) (k : K) :
    (m.mapVal f).lookup k = (m.lookup k).map (f k) := by
  apply lookup_eq_of_mem_iff
  intro w
  simp only [mapVal, List.mem_map, Option.map_eq_some_iff]
  constructor
  · rintro ⟨⟨k', v⟩, hmem, heq⟩
    cases heq
    exact ⟨v, mem_entries_iff.mp hmem, rfl⟩
  · rintro ⟨v, hv, rfl⟩
    exact ⟨⟨k, v⟩, mem_entries_iff.mpr hv, rfl⟩

@[simp] theorem lookup_retain (p : K → V → Bool) (m : AssocMap K V) (k : K) :
    (m.retain p).lookup k = (m.lookup k).filter (p k) := by
  apply lookup_eq_of_mem_iff
  intro v
  simp only [retain, List.mem_filter, Option.filter_eq_some_iff, mem_entries_iff]

/-- Inserting touches one key only. -/
theorem lookup_insert (m : AssocMap K V) (k k' : K) (v : V) :
    AList.lookup k' (AList.insert k v m) = if k' = k then some v else m.lookup k' := by
  split
  next h => subst h; exact AList.lookup_insert m
  next h => exact AList.lookup_insert_ne h

theorem lookup_erase (m : AssocMap K V) (k k' : K) :
    AList.lookup k' (AList.erase k m) = if k' = k then none else m.lookup k' := by
  split
  next h => subst h; exact AList.lookup_erase k' m
  next h => exact AList.lookup_erase_ne h

/-- Change the value of one key in place, if it is present. -/
def modify (k : K) (f : V → V) (m : AssocMap K V) : AssocMap K V :=
  m.mapVal fun k' v => if k' = k then f v else v

@[simp] theorem keys_modify (k : K) (f : V → V) (m : AssocMap K V) :
    (m.modify k f).keys = m.keys := keys_mapVal _ m

/-- Changing a value in place adds no key: an absent one stays absent. -/
theorem lookup_modify (k : K) (f : V → V) (m : AssocMap K V) (k' : K) :
    (m.modify k f).lookup k' = if k' = k then (m.lookup k').map f else m.lookup k' := by
  rw [modify, lookup_mapVal]
  split <;> simp

/-- Selecting from the values what belongs to one key: at most one result. -/
theorem filter_filterMap_entries {B : Type} (f : V → Option B) (m : AssocMap K V) (k : K) :
    ((m.entries.filterMap fun e => (f e.2).map fun b => (e.1, b)).filter fun p => p.1 = k) =
      ((m.lookup k).bind f).toList.map fun b => (k, b) := by
  obtain ⟨entries, hnodup⟩ := m
  simp only [AList.lookup]
  induction entries with
  | nil => rfl
  | cons e rest ih =>
      obtain ⟨k', v⟩ := e
      rw [List.nodupKeys_cons] at hnodup
      rw [List.filterMap_cons]
      by_cases hk : k' = k
      · subst hk
        have hrest : List.dlookup k' rest = none := List.dlookup_eq_none.mpr hnodup.1
        have htail := ih hnodup.2
        rw [hrest] at htail
        rw [List.dlookup_cons_eq]
        cases hf : f v with
        | none => simpa [hf] using htail
        | some b => simpa [hf] using htail
      · rw [List.dlookup_cons_ne _ _ (Ne.symm hk), ← ih hnodup.2]
        cases hf : f v with
        | none => simp
        | some b => simp [hk]

/-- Two entries with different keys can be visited first, in either order. -/
theorem exists_perm_cons_cons {m : AssocMap K V} {k k' : K} {v v' : V} (hne : k ≠ k')
    (hk : m.lookup k = some v) (hk' : m.lookup k' = some v') :
    ∃ rest, m.entries.Perm (⟨k, v⟩ :: ⟨k', v'⟩ :: rest) := by
  obtain ⟨front, back, hentries⟩ := List.append_of_mem (mem_entries_iff.mpr hk)
  have hmem := mem_entries_iff.mpr hk'
  rw [hentries, List.mem_append, List.mem_cons] at hmem
  have hother : (⟨k', v'⟩ : Sigma fun _ : K => V) ∈ front ++ back := by
    rcases hmem with hmem | heq | hmem
    · exact List.mem_append_left back hmem
    · exact absurd (congrArg Sigma.fst heq).symm hne
    · exact List.mem_append_right front hmem
  obtain ⟨front', back', hrest⟩ := List.append_of_mem hother
  refine ⟨front' ++ back', ?_⟩
  rw [hentries]
  refine List.perm_middle.trans (List.Perm.cons _ ?_)
  rw [hrest]
  exact List.perm_middle

end AssocMap

/-! ## Lists as small maps -/

namespace AssocList

variable {A K : Type} [DecidableEq K]

/-- Update the first entry whose key is that of `new`, or append `new`. -/
def upsert (key : A → K) (new : A) (update : A → A) : List A → List A
  | [] => [new]
  | a :: rest => if key a = key new then update a :: rest else a :: upsert key new update rest

variable {key : A → K} {new : A} {update : A → A}

theorem upsert_ne_nil (l : List A) : upsert key new update l ≠ [] := by
  cases l with
  | nil => simp [upsert]
  | cons a rest => unfold upsert; split <;> simp

/-- Updating keeps the keys; a new key goes to the end. -/
theorem map_key_upsert (hupdate : ∀ a, key (update a) = key a) (l : List A) :
    (upsert key new update l).map key =
      if key new ∈ l.map key then l.map key else l.map key ++ [key new] := by
  induction l with
  | nil => simp [upsert]
  | cons a rest ih =>
      unfold upsert
      split
      next h => simp [h, hupdate]
      next h =>
        simp only [List.map_cons, ih, List.mem_cons, Ne.symm h, false_or, List.cons_append]
        split <;> rfl

/-- An update that keeps the key leaves the keys distinct, whether it replaces or appends.
-/
theorem nodup_upsert (hupdate : ∀ a, key (update a) = key a) {l : List A}
    (hl : (l.map key).Nodup) : ((upsert key new update l).map key).Nodup := by
  rw [map_key_upsert hupdate]
  split
  next => exact hl
  next h => exact List.nodup_append.mpr ⟨hl, List.nodup_singleton _, by
    intro k hk k' hk' heq
    rw [List.mem_singleton] at hk'
    exact h (hk' ▸ heq ▸ hk)⟩

/-- Looking up the updated key finds the new data; the other keys are as before. -/
theorem map_find?_upsert {B : Type} (data : A → B) (hupdate : ∀ a, key (update a) = key a)
    (hdata : ∀ a, data (update a) = data new) (l : List A) (k : K) :
    ((upsert key new update l).find? fun a => key a = k).map data =
      if k = key new then some (data new) else (l.find? fun a => key a = k).map data := by
  induction l with
  | nil =>
      by_cases h : key new = k
      · simp [upsert, h]
      · simp [upsert, h, Ne.symm h]
  | cons a rest ih =>
      unfold upsert
      by_cases ha : key a = key new
      · rw [if_pos ha]
        by_cases hk : k = key new
        · simp [hk, ha, hupdate, hdata]
        · have hak : key a ≠ k := fun h => hk (h.symm.trans ha)
          simp [hk, hak, hupdate]
      · rw [if_neg ha]
        by_cases hak : key a = k
        · simp [hak, hak ▸ ha]
        · simp [hak, ih]

/-- Filtering a list by its keys removes exactly one key. -/
theorem find?_filter_key (key : A → K) (l : List A) (k k' : K) :
    (l.filter fun a => key a ≠ k').find? (fun a => key a = k) =
      if k = k' then none else l.find? fun a => key a = k := by
  rw [List.find?_filter]
  split
  next h =>
    subst h
    simp
  next h =>
    congr 1
    funext a
    by_cases ha : key a = k
    · simp [ha, h]
    · simp [ha]

/-- A filter shortens a list exactly when it drops an entry of it. -/
theorem length_filter_bne (keep hit : A → Bool) (hnot : ∀ a, keep a = !hit a)
    (l : List A) : ((l.filter keep).length != l.length) = (l.find? hit).isSome := by
  rw [Bool.eq_iff_iff, bne_iff_ne, ne_eq, List.length_filter_eq_length_iff, List.find?_isSome]
  simp [hnot]

/-! ## The entries with one key -/

/-- Selecting the results of one key is selecting the entries of that key. -/
theorem filter_filterMap_key {B : Type} (key : A → K) {f : A → Option B} {keyOf : B → K}
    (hkey : ∀ a b, f a = some b → keyOf b = key a) (l : List A) (k : K) :
    (l.filterMap f).filter (fun b => keyOf b = k) =
      (l.filter fun a => key a = k).filterMap f := by
  rw [List.filter_filterMap, List.filterMap_filter]
  refine List.filterMap_congr fun a _ => ?_
  cases hfa : f a with
  | none => simp
  | some b => by_cases hk : key a = k <;> simp [Option.filter, hkey a b hfa, hk]

/-- Counting entries key by key. -/
theorem length_eq_sum_filter_key (key : A → K) {keys : List K} (hkeys : keys.Nodup) (l : List A)
    (hl : ∀ a ∈ l, key a ∈ keys) :
    l.length = (keys.map fun k => (l.filter fun a => key a = k).length).sum := by
  induction l with
  | nil => simp
  | cons a rest ih =>
      have hrest := ih fun b hb => hl b (List.mem_cons_of_mem _ hb)
      have hone : (keys.map fun k => if key a = k then 1 else 0).sum = 1 := by
        rw [List.sum_map_eq_nsmul_single (key a) _ fun k hk _ => if_neg (Ne.symm hk),
          List.count_eq_one_of_mem hkeys (hl a List.mem_cons_self)]
        simp
      have hcount : ∀ k, ((a :: rest).filter fun a => key a = k).length =
          (if key a = k then 1 else 0) + (rest.filter fun a => key a = k).length := by
        intro k
        by_cases hk : key a = k
        · simp [hk, Nat.add_comm]
        · simp [hk]
      simp only [hcount, List.sum_map_add]
      rw [hone, ← hrest, List.length_cons, Nat.add_comm]

end AssocList

namespace AssocList

/-- The first entry with a key: what stands in front of it, and what is left without it. -/
theorem exists_split_of_find? {A K : Type} [DecidableEq K] {key : A → K} {k : K} {l : List A}
    {a : A} (hfind : l.find? (fun a => key a = k) = some a) :
    ∃ before after, l = before ++ a :: after ∧ l.takeWhile (fun a => key a ≠ k) = before ∧
      l.eraseP (fun a => key a = k) = before ++ after := by
  obtain ⟨hkey, before, after, rfl, hbefore⟩ := List.find?_eq_some_iff_append.mp hfind
  have hfirst : ∀ b ∈ before, ¬ key b = k := by simpa using hbefore
  have ha : key a = k := of_decide_eq_true hkey
  refine ⟨before, after, rfl, ?_, ?_⟩
  · rw [List.takeWhile_append_of_pos (by simpa using hfirst)]
    simp [ha]
  · rw [List.eraseP_append_right _ (by simpa using hfirst)]
    simp [ha]

/-- Sorting by key keeps the entries of one key in their order. -/
theorem filter_key_insertionSort {A K : Type} [LinearOrder K] (key : A → K) (k : K) (l : List A) :
    (l.insertionSort fun a b => key a ≤ key b).filter (fun a => key a = k) =
      l.filter fun a => key a = k := by
  have hinsert : ∀ (a : A) (l : List A),
      (l.orderedInsert (fun a b => key a ≤ key b) a).filter (fun a => key a = k) =
        (a :: l).filter fun a => key a = k := by
    intro a l
    induction l with
    | nil => rfl
    | cons b rest ih =>
        rw [List.orderedInsert_cons]
        split
        · rfl
        next hlt =>
          -- the entries passed over have a smaller key
          rw [List.filter_cons, ih]
          by_cases ha : key a = k
          · have hb : key b ≠ k := fun hb => hlt (ha.trans hb.symm).le
            simp [ha, hb]
          · simp [ha, List.filter_cons]
  induction l with
  | nil => rfl
  | cons a rest ih =>
      rw [List.insertionSort_cons, hinsert, List.filter_cons, List.filter_cons, ih]

/-- Lists sorted by key that have the same entries of every key. -/
theorem eq_of_sorted_of_filter_key {A K : Type} [LinearOrder K] (key : A → K) {l l' : List A}
    (hl : l.Pairwise fun a b => key a ≤ key b) (hl' : l'.Pairwise fun a b => key a ≤ key b)
    (hfilter : ∀ k, l.filter (fun a => key a = k) = l'.filter fun a => key a = k) : l = l' := by
  have hmem : ∀ a, a ∈ l ↔ a ∈ l' := by
    intro a
    have h := congrArg (a ∈ ·) (hfilter (key a))
    simpa using h
  induction l generalizing l' with
  | nil =>
      cases l' with
      | nil => rfl
      | cons b rest => exact absurd ((hmem b).mpr List.mem_cons_self) List.not_mem_nil
  | cons a rest ih =>
      cases l' with
      | nil => exact absurd ((hmem a).mp List.mem_cons_self) List.not_mem_nil
      | cons b rest' =>
          obtain ⟨hfirst, hrest⟩ := List.pairwise_cons.mp hl
          obtain ⟨hfirst', hrest'⟩ := List.pairwise_cons.mp hl'
          -- each head is among the entries of the other list, none of which is smaller
          have hle : key a ≤ key b := by
            rcases List.mem_cons.mp ((hmem b).mpr List.mem_cons_self) with rfl | hb
            · exact le_rfl
            · exact hfirst b hb
          have hge : key b ≤ key a := by
            rcases List.mem_cons.mp ((hmem a).mp List.mem_cons_self) with rfl | ha
            · exact le_rfl
            · exact hfirst' a ha
          have hkey : key a = key b := le_antisymm hle hge
          have hhead := hfilter (key a)
          rw [List.filter_cons_of_pos (by simp), List.filter_cons_of_pos (by simp [hkey])] at hhead
          obtain ⟨rfl, htail⟩ := List.cons.inj hhead
          have hfilter' : ∀ k, rest.filter (fun a => key a = k) =
              rest'.filter fun a => key a = k := by
            intro k
            by_cases hk : key a = k
            · rw [← hk]
              exact htail
            · simpa [hk] using hfilter k
          rw [ih hrest hrest' hfilter' fun c => ?_]
          have h := congrArg (c ∈ ·) (hfilter' (key c))
          simpa using h

end AssocList
