import Mathlib

/-! # Taking turns

A cursor that is reduced modulo the number of items and moves on by one with every
turn. Over consecutive turns every item has its turn equally often, up to one.
-/

namespace Rotation

variable {A : Type}

/-- The item whose turn it is when the cursor has this value. -/
def at? (items : List A) (cursor : Nat) : Option A := items[cursor % items.length]?

def turns (items : List A) (cursor : Nat) : Nat → List A
  | 0 => []
  | n + 1 => (at? items cursor).toList ++ turns items (cursor + 1) n

variable [BEq A] [LawfulBEq A] {items : List A}

/-- An item has its turn whenever the cursor comes by its position. -/
theorem count_turns (hnodup : items.Nodup) {i : Nat} {a : A} (ha : items[i]? = some a)
    (cursor n : Nat) :
    Nat.count (· % items.length = i) cursor + (turns items cursor n).count a =
      Nat.count (· % items.length = i) (cursor + n) := by
  have hi : i < items.length := (List.getElem?_eq_some_iff.mp ha).1
  induction n generalizing cursor with
  | zero => simp [turns]
  | succ n ih =>
      have hturn : (at? items cursor).toList.count a =
          if cursor % items.length = i then 1 else 0 := by
        have hlt : cursor % items.length < items.length := Nat.mod_lt _ (by omega)
        have hget : at? items cursor = some items[cursor % items.length] := by
          simp [at?, hlt]
        rw [hget, Option.toList_some, List.count_singleton]
        congr 1
        rw [beq_iff_eq, ← (List.getElem?_eq_some_iff.mp ha).2, hnodup.getElem_inj_iff]
      have hrest := ih (cursor + 1)
      rw [Nat.count_succ] at hrest
      rw [turns, List.count_append, hturn, ← Nat.add_assoc, hrest]
      congr 1
      omega

/-- No item has its turn more than once more than another. -/
theorem count_turns_le (hnodup : items.Nodup) {a b : A} (ha : a ∈ items) (hb : b ∈ items)
    (cursor n : Nat) :
    (turns items cursor n).count a ≤ (turns items cursor n).count b + 1 := by
  obtain ⟨i, hi⟩ := List.mem_iff_getElem?.mp ha
  obtain ⟨j, hj⟩ := List.mem_iff_getElem?.mp hb
  have hilt : i < items.length := (List.getElem?_eq_some_iff.mp hi).1
  have hjlt : j < items.length := (List.getElem?_eq_some_iff.mp hj).1
  have hcount : ∀ v, v < items.length → ∀ n, Nat.count (· % items.length = v) n =
      n / items.length + if v < n % items.length then 1 else 0 := by
    intro v hv n
    have hcard := Nat.count_modEq_card n (Nat.zero_lt_of_lt hv) v
    simpa only [Nat.ModEq, Nat.mod_eq_of_lt hv] using hcard
  have hturnsA := count_turns hnodup hi cursor n
  have hturnsB := count_turns hnodup hj cursor n
  rw [hcount i hilt, hcount i hilt] at hturnsA
  rw [hcount j hjlt, hcount j hjlt] at hturnsB
  split_ifs at hturnsA hturnsB <;> omega

end Rotation
