import Relay.Foundation.Machine
import Relay.Server.EventLog

/-! # Offsets of the event log

The next offset is read off the newest row that is still there, and pruning runs
after every append with a retention of its own. Offsets are nevertheless those of
a counter: pruning removes rows from the front and stops before the newest one.
-/

namespace Relay

namespace Storage

/-- `append_event` with the offset it returns. -/
def append (st : Storage) (blob : Bytes) (retention : Nat) : Nat × Storage :=
  (nextKey st.events, st.appendEvent blob retention)

/-- Appends in order, each with its own retention: the offsets returned, and the
store. -/
def appendAll (st : Storage) : List (Bytes × Nat) → List Nat × Storage
  | [] => ([], st)
  | (blob, retention) :: rest =>
      let appended := st.append blob retention
      let later := appended.2.appendAll rest
      (appended.1 :: later.1, later.2)

def eventCount (st : Storage) : Nat := st.events.size

def nextOffset (st : Storage) : Nat := nextKey st.events

/-- One round of the pruning loop; `none` once it is left. -/
def pruneRound (retention : Nat) (t : Table Nat Bytes) : Option (Table Nat Bytes) :=
  if retention < t.size then (Table.first? t).map fun row => t.erase row.1 else none

end Storage

/-- All rows that a history of appends wrote. -/
def rowsOf (history : List (Bytes × Nat)) : List (Nat × Bytes) :=
  history.zipIdx.map fun a => (a.2, a.1.1)

theorem rowsOf_concat (history : List (Bytes × Nat)) (a : Bytes × Nat) :
    rowsOf (history ++ [a]) = rowsOf history ++ [(history.length, a.1)] := by
  simp [rowsOf, List.zipIdx_append]

@[simp] theorem length_rowsOf (history : List (Bytes × Nat)) :
    (rowsOf history).length = history.length := by
  simp [rowsOf]

theorem nextOffset_rowsOf (history : List (Bytes × Nat)) :
    nextOffset (rowsOf history) = history.length := by
  induction history using List.reverseRecOn with
  | nil => rfl
  | append_singleton history a _ => simp [rowsOf_concat, nextOffset]

namespace Storage

/-! ## The pruning loop -/

/-- The loop is left after finitely many rounds, with the table that `prune`
computes. -/
theorem prune_terminates (retention fuel : Nat) (t : Table Nat Bytes) (hfuel : t.size ≤ fuel) :
    ∃ rounds, Machine.run (fun t (_ : Unit) => pruneRound retention t) t
        (List.replicate rounds ()) = some (prune retention fuel t) ∧
      pruneRound retention (prune retention fuel t) = none := by
  induction fuel generalizing t with
  | zero =>
      refine ⟨0, rfl, ?_⟩
      rw [prune, pruneRound, Nat.le_zero.mp hfuel, if_neg (Nat.not_lt_zero _)]
  | succ fuel ih =>
      rw [prune]
      split
      next hmany =>
        cases hrows : t.toList with
        | nil =>
            rw [← Std.TreeMap.length_toList, hrows] at hmany
            exact absurd hmany (Nat.not_lt_zero _)
        | cons row rest =>
            -- a row goes, so the fuel that is left covers the rest
            have hfirst : Table.first? t = some row := by rw [Table.first?, hrows, List.head?_cons]
            have hsize : (t.erase row.1).size ≤ fuel := by
              rw [← Std.TreeMap.length_toList, Table.toList_erase_first hrows]
              rw [← Std.TreeMap.length_toList, hrows, List.length_cons] at hfuel
              exact Nat.le_of_succ_le_succ hfuel
            obtain ⟨rounds, hrun, hexit⟩ := ih (t.erase row.1) hsize
            simp only [hfirst]
            refine ⟨rounds + 1, ?_, hexit⟩
            rw [List.replicate_succ, Machine.run, pruneRound, if_pos hmany, hfirst,
              Option.map_some, Option.bind_some]
            exact hrun
      next hfew => exact ⟨0, rfl, by rw [pruneRound, if_neg hfew]⟩

/-! ## Histories of appends -/

/-- The log after a history: all rows from the oldest kept one on, and never
without the newest. -/
def LogOf (history : List (Bytes × Nat)) (st : Storage) : Prop :=
  ∃ oldest, oldest ≤ history.length - 1 ∧ st.events.toList = (rowsOf history).drop oldest

/-- Pruning keeps the newest row, so offsets count all appends ever made. -/
theorem LogOf.nextOffset {history : List (Bytes × Nat)} {st : Storage} (hlog : LogOf history st) :
    Relay.nextOffset st.events.toList = history.length := by
  obtain ⟨oldest, holdest, hrows⟩ := hlog
  rw [hrows, ← nextOffset_rowsOf]
  apply nextOffset_drop
  rw [Ne, List.drop_eq_nil_iff, length_rowsOf]
  omega

theorem LogOf.nextKey_eq {history : List (Bytes × Nat)} {st : Storage} (hlog : LogOf history st)
    (hroom : history.length < u64Bound) : nextKey st.events = history.length := by
  rw [Storage.nextKey_eq (hlog.nextOffset ▸ hroom), hlog.nextOffset]

/-- An unbounded append only adds a row. -/
theorem LogOf.toList_append_zero {history : List (Bytes × Nat)} {st : Storage}
    (hlog : LogOf history st) (hroom : history.length < u64Bound) (blob : Bytes) :
    (st.appendEvent blob 0).events.toList = st.events.toList ++ [(history.length, blob)] := by
  have hinsert := toList_insert_nextKey blob (hlog.nextOffset ▸ hroom)
  rw [hlog.nextOffset] at hinsert
  exact hinsert

/-- A bounded append leaves the newest rows. -/
theorem LogOf.toList_append_pos {history : List (Bytes × Nat)} {st : Storage}
    (hlog : LogOf history st) (hroom : history.length < u64Bound) (blob : Bytes) {retention : Nat}
    (hretention : 0 < retention) :
    (st.appendEvent blob retention).events.toList =
      (st.events.toList ++ [(history.length, blob)]).drop (st.eventCount + 1 - retention) := by
  rw [toList_appendEvent st blob hretention (hlog.nextOffset ▸ hroom), hlog.nextOffset,
    eventCount, Std.TreeMap.length_toList]

theorem LogOf.append {history : List (Bytes × Nat)} {st : Storage} (hlog : LogOf history st)
    (hroom : history.length < u64Bound) (blob : Bytes) (retention : Nat) :
    LogOf (history ++ [(blob, retention)]) (st.appendEvent blob retention) := by
  have hzero := hlog.toList_append_zero hroom blob
  have hpos : 0 < retention → _ := hlog.toList_append_pos hroom blob
  obtain ⟨oldest, holdest, hrows⟩ := hlog
  have hall : st.events.toList ++ [(history.length, blob)] =
      (rowsOf (history ++ [(blob, retention)])).drop oldest := by
    rw [hrows, rowsOf_concat, List.drop_append_of_le_length (by rw [length_rowsOf]; omega)]
  rcases Nat.eq_zero_or_pos retention with rfl | hretention
  · exact ⟨oldest, by simp; omega, hzero.trans hall⟩
  · refine ⟨oldest + (st.eventCount + 1 - retention), ?_, ?_⟩
    · rw [eventCount, ← Std.TreeMap.length_toList, hrows, List.length_drop, length_rowsOf,
        List.length_append, List.length_singleton]
      omega
    · rw [hpos hretention, hall, List.drop_drop]

/-- A sequence of appends after a history: consecutive offsets, and the log of the
longer history. -/
theorem LogOf.appendAll {history : List (Bytes × Nat)} {st : Storage} (hlog : LogOf history st)
    (appends : List (Bytes × Nat)) (hroom : history.length + appends.length ≤ u64Bound) :
    (st.appendAll appends).1 = List.range' history.length appends.length ∧
      LogOf (history ++ appends) (st.appendAll appends).2 := by
  induction appends generalizing history st with
  | nil => exact ⟨rfl, by rwa [List.append_nil]⟩
  | cons a rest ih =>
      obtain ⟨blob, retention⟩ := a
      rw [List.length_cons] at hroom
      have hfirst := hlog.append (by omega) blob retention
      obtain ⟨hoffsets, hlog'⟩ := ih hfirst (by simp; omega)
      rw [List.length_append, List.length_singleton] at hoffsets
      rw [List.append_assoc, List.singleton_append] at hlog'
      refine ⟨?_, hlog'⟩
      rw [Storage.appendAll, List.length_cons, List.range'_succ, ← hoffsets]
      exact congrArg (· :: _) (hlog.nextKey_eq (by omega))

/-- Offsets of the event log, for any appends with any retentions on an empty log.
The offsets returned count the appends; the next offset is their number; the rows
kept are the newest, consecutive up to the last one. A further append adds its row
after them and then, if its retention is positive, keeps at most that many of the
newest rows, by a loop that ends. -/
theorem appendAll_offsets (st₀ : Storage) (hempty : st₀.events.toList = [])
    (appends : List (Bytes × Nat)) (hroom : appends.length < u64Bound) :
    (st₀.appendAll appends).1 = List.range appends.length ∧
    ∃ st, (st₀.appendAll appends).2 = st ∧ st.nextOffset = appends.length ∧
      (∃ oldest, oldest ≤ appends.length - 1 ∧
        st.events.toList = (rowsOf appends).drop oldest) ∧
      ∀ blob retention, (st.append blob retention).1 = appends.length ∧
        (retention = 0 → (st.append blob retention).2.events.toList =
          st.events.toList ++ [(appends.length, blob)]) ∧
        (0 < retention → (st.append blob retention).2.eventCount ≤ retention ∧
          (st.append blob retention).2.events.toList =
            (st.events.toList ++ [(appends.length, blob)]).drop (st.eventCount + 1 - retention) ∧
          ∃ rounds, Machine.run (fun t (_ : Unit) => pruneRound retention t)
              (st.events.insert appends.length blob) (List.replicate rounds ()) =
                some (st.append blob retention).2.events ∧
            pruneRound retention (st.append blob retention).2.events = none) := by
  have hstart : LogOf [] st₀ := ⟨0, Nat.le_refl 0, by rw [hempty]; rfl⟩
  obtain ⟨hoffsets, hlog⟩ := hstart.appendAll appends (by simpa using hroom.le)
  rw [List.nil_append] at hlog
  have hkey := hlog.nextKey_eq hroom
  refine ⟨by rw [hoffsets, List.range_eq_range']; rfl, _, rfl, hkey, hlog, ?_⟩
  intro blob retention
  refine ⟨hkey, ?_, fun hretention => ⟨?_, hlog.toList_append_pos hroom blob hretention, ?_⟩⟩
  · rintro rfl
    exact hlog.toList_append_zero hroom blob
  · rw [eventCount, ← Std.TreeMap.length_toList, append,
      hlog.toList_append_pos hroom blob hretention, List.length_drop, List.length_append,
      List.length_singleton, Std.TreeMap.length_toList, eventCount]
    omega
  · have hloop := prune_terminates retention _
      ((st₀.appendAll appends).2.events.insert appends.length blob) (Nat.le_refl _)
    simpa only [append, appendEvent, hkey, hretention, if_true] using hloop

/-- Retentions of every kind: five appends, of which the last one prunes. -/
theorem appendAll_offsets_sample :
    let appends : List (Bytes × Nat) := [([1], 0), ([2], 1), ([3], 0), ([4], 5), ([5], 2)]
    (empty.appendAll appends).1 = [0, 1, 2, 3, 4] ∧
      (empty.appendAll appends).2.events.toList = [(3, [4]), (4, [5])] ∧
      (empty.appendAll appends).2.nextOffset = 5 := by
  intro appends
  obtain ⟨hoffsets, st, hst, hnext, -⟩ := appendAll_offsets empty rfl appends (by decide)
  exact ⟨hoffsets, by decide, hst ▸ hnext⟩

end Storage

end Relay
