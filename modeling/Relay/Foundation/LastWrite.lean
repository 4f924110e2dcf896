import Mathlib

/-! # Last write wins

A register under a list of operations. An operation writes the register, with a
value or by clearing it, or leaves it alone; the register then holds what the
last operation that wrote it left.
-/

namespace LastWrite

variable {Op S V W : Type}

/-- What the last operation that writes the register leaves in it; nothing if no
operation writes it. -/
def value (write : Op → Option (Option V)) (ops : List Op) : Option V :=
  (ops.filterMap write).getLast?.join

theorem value_concat (write : Op → Option (Option V)) (ops : List Op) (op : Op) :
    value write (ops ++ [op]) = (write op).getD (value write ops) := by
  unfold value
  rw [List.filterMap_append]
  cases hop : write op with
  | none => simp [hop]
  | some v => simp [hop]

/-- A value in the register has been written by one of the operations. -/
theorem exists_of_value {write : Op → Option (Option V)} {ops : List Op} {v : V}
    (hvalue : value write ops = some v) : ∃ op ∈ ops, write op = some (some v) := by
  have hlast : (ops.filterMap write).getLast? = some (some v) := Option.join_eq_some_iff.mp hvalue
  exact List.mem_filterMap.mp (List.mem_of_getLast? hlast)

/-- Writing partial images of the values. -/
theorem value_bind (write : Op → Option (Option V)) (f : V → Option W) (ops : List Op) :
    value (fun op => (write op).map (·.bind f)) ops = (value write ops).bind f := by
  unfold value
  rw [← List.map_filterMap, List.getLast?_map]
  cases (ops.filterMap write).getLast? with
  | none => rfl
  | some v => rfl

/-- A part of a state that every operation treats as a register holds the last
write. -/
theorem foldl_eq_value {write : Op → Option (Option V)} {apply : S → Op → S} (row : S → Option V)
    {ops : List Op} (happly : ∀ op ∈ ops, ∀ s, row (apply s op) = (write op).getD (row s)) {s : S}
    (hempty : row s = none) : row (ops.foldl apply s) = value write ops := by
  induction ops using List.reverseRecOn with
  | nil => exact hempty
  | append_singleton ops op ih =>
      rw [List.forall_mem_append] at happly
      rw [List.foldl_append, List.foldl_cons, List.foldl_nil, value_concat,
        happly.2 op (List.mem_singleton_self op), ih happly.1]

end LastWrite
