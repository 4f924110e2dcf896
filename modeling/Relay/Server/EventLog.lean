import Relay.Server.Codec
import Relay.Server.Storage

/-! # The event log

Appending to the log table is appending to a list of rows, and pruning is
dropping from its front, as long as offsets stay below their bound. The log after
a sequence of appends is the initial rows followed by the numbered events,
without the oldest ones beyond the retention.
-/

namespace Relay

structure Event where
  ts : Nat
  topic : String
  qos : QoS
  payload : Bytes
deriving DecidableEq

namespace Event

def blob (e : Event) : Bytes := encodeEvent e.ts e.topic e.qos e.payload

/-- The topic fits its length field. -/
def Fits (e : Event) : Prop := (Wire.utf8 e.topic).length < u16Bound

instance (e : Event) : Decidable e.Fits :=
  inferInstanceAs (Decidable ((Wire.utf8 e.topic).length < u16Bound))

def row (r : Nat × Event) : Nat × Bytes := (r.1, r.2.blob)

end Event

def nextOffset {A : Type} (rows : List (Nat × A)) : Nat :=
  match rows.getLast? with
  | some r => r.1 + 1
  | none => 0

/-- Consecutive offsets for a list of events. -/
def number (start : Nat) (events : List Event) : List (Nat × Event) :=
  (events.zipIdx start).map Prod.swap

section Rows

variable {A : Type}

/-- In an ascending log the next offset is above all others. -/
theorem lt_nextOffset {rows : List (Nat × A)} (hsorted : rows.Pairwise fun a b => a.1 < b.1)
    {r : Nat × A} (hr : r ∈ rows) : r.1 < nextOffset rows := by
  induction rows using List.reverseRecOn with
  | nil => cases hr
  | append_singleton rows last _ =>
      rw [List.pairwise_append] at hsorted
      simp only [nextOffset, List.getLast?_append, List.getLast?_singleton, Option.some_or]
      rcases List.mem_append.mp hr with hold | hlast
      · exact Nat.lt_succ_of_lt (hsorted.2.2 r hold last (List.mem_singleton_self last))
      · rw [List.mem_singleton.mp hlast]
        exact Nat.lt_succ_self _

theorem nextOffset_map {B : Type} (f : A → B) (rows : List (Nat × A)) :
    nextOffset (rows.map fun r => (r.1, f r.2)) = nextOffset rows := by
  simp only [nextOffset, List.getLast?_map]
  cases rows.getLast? <;> rfl

/-- Pruning does not move the next offset, as long as a row is left. -/
theorem nextOffset_drop {rows : List (Nat × A)} {k : Nat} (hne : k = 0 ∨ rows.drop k ≠ []) :
    nextOffset (rows.drop k) = nextOffset rows := by
  rcases hne with rfl | hne
  · rw [List.drop_zero]
  · have hlt : k < rows.length := by
      by_contra hge
      exact hne (List.drop_eq_nil_of_le (Nat.not_lt.mp hge))
    simp only [nextOffset, List.getLast?_drop, Nat.not_le.mpr hlt, if_false]

end Rows

theorem number_append (start : Nat) (events : List Event) (e : Event) :
    number start (events ++ [e]) = number start events ++ [(start + events.length, e)] := by
  simp [number, List.zipIdx_append]

@[simp] theorem map_snd_number (start : Nat) (events : List Event) :
    (number start events).map Prod.snd = events := by
  simp [number, Function.comp_def]

/-- The next offset counts what was appended. -/
theorem nextOffset_append_number (log : List (Nat × Event)) (events : List Event) :
    nextOffset (log ++ number (nextOffset log) events) = nextOffset log + events.length := by
  induction events using List.reverseRecOn with
  | nil => simp [number]
  | append_singleton events e _ =>
      rw [number_append, ← List.append_assoc]
      simp [nextOffset, Nat.add_assoc]

/-! ## The table -/

namespace Storage

/-- Pruning drops the oldest rows. -/
theorem toList_prune (retention fuel : Nat) (t : Table Nat Bytes) (hfuel : t.size ≤ fuel) :
    (prune retention fuel t).toList = t.toList.drop (t.toList.length - retention) := by
  induction fuel generalizing t with
  | zero =>
      have hempty : t.toList.length = 0 := by
        rw [Std.TreeMap.length_toList]
        exact Nat.le_zero.mp hfuel
      simp [prune, hempty]
  | succ fuel ih =>
      -- one round drops the first row; the fuel covers the rows that are left
      rw [prune]
      split
      next hmany =>
        rw [← Std.TreeMap.length_toList] at hmany hfuel
        cases hrows : t.toList with
        | nil => simp [hrows] at hmany
        | cons row rest =>
            have herase := Table.toList_erase_first hrows
            have hsize : (t.erase row.1).size ≤ fuel := by
              rw [← Std.TreeMap.length_toList, herase]
              rw [hrows, List.length_cons] at hfuel
              omega
            rw [hrows, List.length_cons] at hmany
            have hdrop : rest.length + 1 - retention = (rest.length - retention) + 1 := by omega
            simp only [Table.first?, hrows, List.head?_cons, ih _ hsize, herase, List.length_cons,
              hdrop, List.drop_succ_cons]
      next hfew =>
        rw [← Std.TreeMap.length_toList] at hfew
        rw [Nat.sub_eq_zero_of_le (Nat.not_lt.mp hfew), List.drop_zero]

/-- The next key is the next offset, as long as there is one. -/
theorem nextKey_eq {t : Table Nat Bytes} (hroom : nextOffset t.toList < u64Bound) :
    nextKey t = nextOffset t.toList := by
  simp only [nextKey, Table.last?, nextOffset] at hroom ⊢
  cases hlast : t.toList.getLast? with
  | none => rfl
  | some r =>
      simp only [hlast] at hroom ⊢
      exact Nat.mod_eq_of_lt hroom

/-- Before the offsets run out, a record is appended at the end. -/
theorem toList_insert_nextKey {t : Table Nat Bytes} (blob : Bytes)
    (hroom : nextOffset t.toList < u64Bound) :
    (t.insert (nextKey t) blob).toList = t.toList ++ [(nextOffset t.toList, blob)] := by
  rw [nextKey_eq hroom]
  exact Table.toList_insert_last blob fun row hrow =>
    lt_nextOffset (Table.pairwise_toList t) hrow

/-- Appending takes the next offset. -/
theorem toList_appendEvent (st : Storage) (blob : Bytes) {retention : Nat}
    (hretention : 0 < retention) (hroom : nextOffset st.events.toList < u64Bound) :
    (st.appendEvent blob retention).events.toList =
      (st.events.toList ++ [(nextOffset st.events.toList, blob)]).drop
        (st.events.toList.length + 1 - retention) := by
  simp only [appendEvent, hretention, if_true]
  rw [toList_prune _ _ _ (Nat.le_refl _), toList_insert_nextKey blob hroom]
  simp

/-- The log holds the given rows, without the oldest ones if retention has pruned
them. -/
def Retained (retention : Nat) (rows : List (Nat × Event)) (st : Storage) : Prop :=
  ∃ pruned, st.events.toList = (rows.drop pruned).map Event.row ∧
    (pruned = 0 ∨ (rows.drop pruned).length = retention)

/-- Pruning after an append removes the oldest rows beyond the retention. -/
theorem Retained.append {retention : Nat} {rows : List (Nat × Event)} {st : Storage}
    (hretained : Retained retention rows st) (e : Event) (hretention : 0 < retention)
    (hroom : nextOffset rows < u64Bound) :
    Retained retention (rows ++ [(nextOffset rows, e)]) (st.appendEvent e.blob retention) := by
  obtain ⟨pruned, hrows, hpruned⟩ := hretained
  -- pruning never empties the log, so the next offset is still on it
  have hne : pruned = 0 ∨ rows.drop pruned ≠ [] := by
    refine hpruned.imp id fun hlen hnil => ?_
    rw [hnil] at hlen
    exact hretention.ne hlen
  have hle : pruned ≤ rows.length := by
    rcases hne with rfl | hne
    · exact Nat.zero_le _
    · by_contra hgt
      exact hne (List.drop_eq_nil_of_le (Nat.le_of_not_le hgt))
  have hnext : nextOffset st.events.toList = nextOffset rows := by
    rw [hrows]
    exact (nextOffset_map Event.blob _).trans (nextOffset_drop hne)
  have hlength : st.events.toList.length = rows.length - pruned := by
    rw [hrows, List.length_map, List.length_drop]
  refine ⟨pruned + (rows.length - pruned + 1 - retention), ?_, ?_⟩
  · rw [toList_appendEvent st e.blob hretention (hnext ▸ hroom), hnext, hlength, hrows,
      ← List.drop_drop, List.drop_append_of_le_length hle]
    simp [List.map_drop, Event.row]
  · rw [List.length_drop, List.length_append, List.length_singleton]
    rw [List.length_drop] at hpruned
    omega

/-- The initial rows and the events appended since, numbered on. -/
def Logged (retention : Nat) (log : List (Nat × Event)) (events : List Event) (st : Storage) :
    Prop :=
  Retained retention (log ++ number (nextOffset log) events) st

/-- The log after one more event. -/
theorem Logged.append {retention : Nat} {log : List (Nat × Event)} {events : List Event}
    {st : Storage} (hlogged : Logged retention log events st) (e : Event)
    (hretention : 0 < retention) (hroom : nextOffset log + events.length < u64Bound) :
    Logged retention log (events ++ [e]) (st.appendEvent e.blob retention) := by
  rw [← nextOffset_append_number] at hroom
  have happend := Retained.append hlogged e hretention hroom
  rwa [List.append_assoc, nextOffset_append_number, ← number_append] at happend

end Storage

/-! ## Events among the queued writes -/

namespace PersistOp

def event? : PersistOp → Option (Bytes × Nat)
  | .appendEvent blob retention => some (blob, retention)
  | _ => none

def ack? : PersistOp → Option Nat
  | .flush ack => some ack
  | _ => none

end PersistOp

/-- Other writes leave the log alone. -/
theorem Storage.events_applyPersistOp (st : Storage) {op : PersistOp} (hop : op.event? = none) :
    (st.applyPersistOp op).events = st.events := by
  cases op with
  | appendEvent blob retention => cases hop
  | putInflight clientId blob =>
      simp only [applyPersistOp, putInflight]
      split <;> rfl
  | putRetained topic payload qos =>
      simp only [applyPersistOp, putRetained]
      split <;> rfl
  | putSession _ _ => rfl
  | removeSession _ => rfl
  | putSubscription _ _ _ => rfl
  | removeSubscription _ _ => rfl
  | appendDeadLetter _ => rfl
  | flush _ => rfl

/-- Only the appends among the performed writes matter for the log. -/
theorem Storage.Logged.foldl {retention : Nat} {log : List (Nat × Event)} {events more : List Event}
    {st : Storage} {ops : List PersistOp} (hlogged : Logged retention log events st)
    (hretention : more ≠ [] → 0 < retention)
    (hops : ops.filterMap PersistOp.event? = more.map fun e => (e.blob, retention))
    (hroom : nextOffset log + (events ++ more).length ≤ u64Bound) :
    Logged retention log (events ++ more) (ops.foldl applyPersistOp st) := by
  induction ops generalizing st events more with
  | nil =>
      have hnil : more = [] := by simpa using hops.symm
      subst hnil
      rw [List.append_nil]
      exact hlogged
  | cons op ops ih =>
      -- the other writes leave the log table alone
      cases hop : op.event? with
      | none =>
          rw [List.filterMap_cons_none hop] at hops
          refine ih ?_ hretention hops hroom
          unfold Logged Retained
          rw [events_applyPersistOp st hop]
          exact hlogged
      | some event =>
          rw [List.filterMap_cons_some hop] at hops
          cases more with
          | nil => cases hops
          | cons e more =>
              rw [List.map_cons, List.cons.injEq] at hops
              obtain ⟨rfl, hops⟩ := hops
              have hpos := hretention (List.cons_ne_nil e more)
              have happend : st.applyPersistOp op = st.appendEvent e.blob retention := by
                cases op <;> cases hop
                rfl
              simp only [List.length_append, List.length_cons] at hroom
              have hstep := hlogged.append e hpos (by omega)
              have hrest := ih (happend ▸ hstep) (fun _ => hpos) hops
                (by simp only [List.length_append, List.length_cons, List.length_nil]; omega)
              rwa [List.append_assoc] at hrest

/-! ## The worker as a queue -/

namespace Disk

/-- The disk after queueing `ops` while the worker performed the first writes of
the queue, in order. -/
def Serves (d : Disk) (ops : List PersistOp) (d' : Disk) : Prop :=
  ∃ done, d.queue ++ ops = done ++ d'.queue ∧
    d'.storage = done.foldl Storage.applyPersistOp d.storage ∧
    d'.acks = d.acks ++ done.filterMap PersistOp.ack?

theorem Serves.refl (d : Disk) : Serves d [] d := ⟨[], by simp⟩

theorem Serves.enqueue {d d' : Disk} {ops : List PersistOp} (hserves : Serves d ops d')
    (more : List PersistOp) : Serves d (ops ++ more) { d' with queue := d'.queue ++ more } := by
  obtain ⟨done, hqueue, hstorage, hacks⟩ := hserves
  refine ⟨done, ?_, hstorage, hacks⟩
  rw [← List.append_assoc, hqueue, List.append_assoc]

theorem Serves.work {d d' d'' : Disk} {ops : List PersistOp} (hserves : Serves d ops d')
    (hwork : d'.work = some d'') : Serves d ops d'' := by
  obtain ⟨done, hqueue, hstorage, hacks⟩ := hserves
  unfold Disk.work at hwork
  split at hwork
  · cases hwork
  next op rest hop =>
    cases hwork
    refine ⟨done ++ [op], ?_, ?_, ?_⟩
    · rw [hqueue, hop, List.append_assoc, List.singleton_append]
    · rw [List.foldl_append, ← hstorage]
      rfl
    · rw [List.filterMap_append, ← List.append_assoc, ← hacks]
      cases op <;> simp [PersistOp.ack?]

/-- A flush is a barrier: once it is acknowledged, everything queued before it
has been performed. -/
theorem Serves.barrier {d d' : Disk} {before after : List PersistOp} {ack : Nat}
    (hserves : Serves d (before ++ .flush ack :: after) d') (hqueue : d.queue = [])
    (hfresh : ack ∉ d.acks ++ (before ++ after).filterMap PersistOp.ack?) (hack : ack ∈ d'.acks) :
    ∃ later rest, after = later ++ rest ∧
      d'.storage = (before ++ .flush ack :: later).foldl Storage.applyPersistOp d.storage := by
  obtain ⟨done, hsplit, hstorage, hacks⟩ := hserves
  rw [hqueue, List.nil_append] at hsplit
  have hmem : ack ∈ done.filterMap PersistOp.ack? := by
    rw [hacks, List.mem_append] at hack
    exact hack.resolve_left fun h => hfresh (List.mem_append_left _ h)
  rcases List.append_eq_append_iff.mp hsplit with ⟨mid, hdone, hrest⟩ | ⟨mid, hbefore, hrest⟩
  · -- the worker got past what was queued before the flush
    cases mid with
    | nil =>
        rw [List.append_nil] at hdone
        subst hdone
        exact absurd (by simp [List.filterMap_append, hmem]) hfresh
    | cons op later =>
        obtain ⟨rfl, hafter⟩ := List.cons.inj hrest
        exact ⟨later, d'.queue, hafter, hdone ▸ hstorage⟩
  · subst hbefore
    exact absurd (by simp [List.filterMap_append, hmem]) hfresh

end Disk

end Relay
