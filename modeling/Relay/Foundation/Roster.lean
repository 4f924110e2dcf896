import Mathlib

/-! # Named items

The items of a collection get a number when they enter it and keep it until they leave.
A step looks at every item once, changes it or lets it leave, and may let one more in.
Recorded item by item, a run of such steps follows each item from the step where it
enters to the one where it leaves, and an item that has left does not come back.
-/

structure Roster (α : Type) where
  items : List (Nat × α)
  next : Nat
  sorted : (items.map Prod.fst).Pairwise (· < ·)
  below : ∀ x ∈ items, x.1 < next

namespace Roster

variable {α β : Type}

inductive Status (α : Type) where
  | fresh
  | live (a : α)
  | gone

/-- What a step does to an item: there is nothing before for one that enters, and
nothing after for one that leaves. -/
structure Record (α β : Type) where
  name : Nat
  before : Option α
  after : Option α
  note : β

namespace Record

def opens (r : Record α β) : Status α := r.before.elim .fresh .live

def closes (r : Record α β) : Status α := r.after.elim .gone .live

theorem opens_eq_live_iff {r : Record α β} {a : α} : r.opens = .live a ↔ r.before = some a := by
  cases hbefore : r.before <;> simp [opens, hbefore]

theorem closes_eq_live_iff {r : Record α β} {a : α} : r.closes = .live a ↔ r.after = some a := by
  cases hafter : r.after <;> simp [closes, hafter]

theorem opens_ne_gone (r : Record α β) : r.opens ≠ .gone := by
  cases hbefore : r.before <;> simp [opens, hbefore]

theorem closes_ne_fresh (r : Record α β) : r.closes ≠ .fresh := by
  cases hafter : r.after <;> simp [closes, hafter]

end Record

/-! ## Records in order -/

/-- Each record takes its item up where the records before it left it. -/
inductive Follows : (Nat → Status α) → List (Record α β) → (Nat → Status α) → Prop where
  | nil (st : Nat → Status α) : Follows st [] st
  | cons {st st' : Nat → Status α} {r : Record α β} {rest : List (Record α β)}
      (opens : st r.name = r.opens)
      (follows : Follows (Function.update st r.name r.closes) rest st') : Follows st (r :: rest) st'

namespace Follows

variable {st st' st'' : Nat → Status α} {log more : List (Record α β)}

/-- Logs compose when the second takes up where the first stops. -/
theorem append (hlog : Follows st log st') (hmore : Follows st' more st'') :
    Follows st (log ++ more) st'' := by
  induction hlog with
  | nil => exact hmore
  | cons hopens _ ih => exact .cons hopens (ih hmore)

/-- Records of different items, in any order. -/
theorem of_nodup (hnodup : (log.map Record.name).Nodup)
    (hopens : ∀ r ∈ log, st r.name = r.opens) (hcloses : ∀ r ∈ log, st' r.name = r.closes)
    (hother : ∀ n, n ∉ log.map Record.name → st' n = st n) : Follows st log st' := by
  induction log generalizing st with
  | nil =>
      obtain rfl : st' = st := funext fun n => hother n List.not_mem_nil
      exact .nil st'
  | cons r rest ih =>
      rw [List.map_cons, List.nodup_cons] at hnodup
      obtain ⟨hfirst, hrest⟩ := List.forall_mem_cons.mp hopens
      refine .cons hfirst (ih hnodup.2 ?_ (List.forall_mem_cons.mp hcloses).2 ?_)
      · intro r' hr'
        rw [Function.update_of_ne]
        · exact hrest r' hr'
        · exact fun heq => hnodup.1 (heq ▸ List.mem_map_of_mem hr')
      · intro n hn
        by_cases heq : n = r.name
        · rw [heq, Function.update_self]
          exact hcloses r List.mem_cons_self
        · rw [Function.update_of_ne heq]
          exact hother n (by simp [heq, hn])

/-- What holds of an item that enters and of every further record of it holds of the
whole history of the item. -/
theorem invariant {I : List (Record α β) → Status α → Prop} (hfollows : Follows st log st')
    (hinit : ∀ n, I [] (st n))
    (hstep : ∀ r ∈ log, ∀ past, I past r.opens → I (past ++ [r]) r.closes) (n : Nat) :
    I (log.filter (·.name = n)) (st' n) := by
  -- generalised to the records that the item already has
  suffices hall : ∀ past : Nat → List (Record α β), (∀ n, I (past n) (st n)) →
      I (past n ++ log.filter (·.name = n)) (st' n) from hall (fun _ => []) hinit
  clear hinit
  induction hfollows with
  | nil => exact fun past hpast => by simpa using hpast n
  | @cons st st' r rest hopens _ ih =>
      intro past hpast
      obtain ⟨hfirst, hrest⟩ := List.forall_mem_cons.mp hstep
      have hnext := ih hrest (Function.update past r.name (past r.name ++ [r])) ?_
      · by_cases heq : r.name = n
        · subst heq
          simpa using hnext
        · rw [Function.update_of_ne (Ne.symm heq)] at hnext
          simpa [heq] using hnext
      · intro m
        by_cases heq : m = r.name
        · subst heq
          rw [Function.update_self, Function.update_self]
          exact hfirst _ (hopens ▸ hpast r.name)
        · rw [Function.update_of_ne heq, Function.update_of_ne heq]
          exact hpast m

/-- An item with a property that the records keep is there with it, or left with it. -/
theorem settled {Q : α → Prop} (hfollows : Follows st log st')
    (hkeep : ∀ r ∈ log, ∀ a, r.before = some a → Q a → ∀ b, r.after = some b → Q b)
    {r : Record α β} (hr : r ∈ log) {a : α} (hafter : r.after = some a) (ha : Q a) :
    (∃ b, st' r.name = .live b ∧ Q b) ∨
      ∃ r' ∈ log, r'.name = r.name ∧ r'.after = none ∧ ∃ b, r'.before = some b ∧ Q b := by
  have hall := hfollows.invariant
    (I := fun past s => (∃ r ∈ past, ∃ a, r.after = some a ∧ Q a) →
      (∃ b, s = .live b ∧ Q b) ∨ ∃ r ∈ past, r.after = none ∧ ∃ b, r.before = some b ∧ Q b)
    (fun _ h => by simp at h) ?_ r.name
  · refine (hall ⟨r, by simp [hr], a, hafter, ha⟩).imp_right fun ⟨r', hr', hleft⟩ => ?_
    obtain ⟨hmem, hname⟩ := List.mem_filter.mp hr'
    exact ⟨r', hmem, of_decide_eq_true hname, hleft⟩
  · rintro r hr past hpast ⟨r₀, hr₀, a, hafter, ha⟩
    rcases List.mem_append.mp hr₀ with hold | hnew
    · rcases hpast ⟨r₀, hold, a, hafter, ha⟩ with ⟨b, hopens, hb⟩ | ⟨r', hr', hleft⟩
      · rw [Record.opens_eq_live_iff] at hopens
        cases hlast : r.after with
        | none => exact Or.inr ⟨r, by simp, hlast, b, hopens, hb⟩
        | some c => exact Or.inl ⟨c, Record.closes_eq_live_iff.mpr hlast, hkeep r hr b hopens hb c hlast⟩
      · exact Or.inr ⟨r', List.mem_append_left _ hr', hleft⟩
    · rw [List.mem_singleton.mp hnew] at hafter
      exact Or.inl ⟨a, Record.closes_eq_live_iff.mpr hafter, ha⟩

/-- An item leaves once, and is gone from then on. -/
theorem left_once (hfollows : Follows st log st') {r : Record α β} (hr : r ∈ log)
    (hleft : r.after = none) :
    st' r.name = .gone ∧ ∀ r' ∈ log, r'.name = r.name → r'.after = none → r' = r := by
  have hall := hfollows.invariant
    (I := fun past s => ∀ r ∈ past, r.after = none →
      s = .gone ∧ ∀ r' ∈ past, r'.after = none → r' = r)
    (fun _ r hr => nomatch hr) ?_ r.name
  · obtain ⟨hgone, hother⟩ := hall r (List.mem_filter.mpr ⟨hr, decide_eq_true rfl⟩) hleft
    exact ⟨hgone, fun r' hr' hname => hother r' (List.mem_filter.mpr ⟨hr', decide_eq_true hname⟩)⟩
  · intro r₁ _ past hpast
    -- the item is there when it is recorded again, so it has not left before
    have hstay : ∀ r' ∈ past, r'.after ≠ none := fun r' hr' hleft' =>
      r₁.opens_ne_gone (hpast r' hr' hleft').1
    have hlast : ∀ r' ∈ past ++ [r₁], r'.after = none → r' = r₁ := by
      intro r' hr' hleft'
      rcases List.mem_append.mp hr' with hold | hnew
      · exact absurd hleft' (hstay r' hold)
      · exact List.mem_singleton.mp hnew
    intro r' hr' hleft'
    obtain rfl := hlast r' hr' hleft'
    exact ⟨by rw [Record.closes, hleft', Option.elim_none], hlast⟩

section Related

variable {R : α → α → Prop} (hrefl : ∀ a, R a a) (htrans : ∀ {a b c}, R a b → R b c → R a c)

include hrefl htrans

/-- A later record of an item that is there or has left. -/
theorem related_of_status (hfollows : Follows st log st')
    (hstep : ∀ r ∈ log, ∀ a, r.before = some a → ∀ b, r.after = some b → R a b)
    {r : Record α β} (hr : r ∈ log) (hst : st r.name ≠ .fresh) :
    ∃ a b, st r.name = .live a ∧ r.before = some b ∧ R a b := by
  induction hfollows with
  | nil => cases hr
  | @cons st st' r₁ rest hopens _ ih =>
      obtain ⟨hfirst, hrest⟩ := List.forall_mem_cons.mp hstep
      by_cases heq : r.name = r₁.name
      · rw [heq] at hst ⊢
        cases hbefore : r₁.before with
        | none => exact absurd (by simp [hopens, Record.opens, hbefore]) hst
        | some a =>
            have hlive : st r₁.name = .live a := by simp [hopens, Record.opens, hbefore]
            rcases List.mem_cons.mp hr with rfl | hr
            · exact ⟨a, a, hlive, hbefore, hrefl a⟩
            · rw [heq, Function.update_self] at ih
              obtain ⟨a₁, b, hcloses, hb, hR⟩ := ih hrest hr r₁.closes_ne_fresh
              rw [Record.closes_eq_live_iff] at hcloses
              exact ⟨a, b, hlive, hb, htrans (hfirst a hbefore a₁ hcloses) hR⟩
      · rw [Function.update_of_ne heq] at ih
        rcases List.mem_cons.mp hr with rfl | hr
        · exact absurd rfl heq
        · exact ih hrest hr hst

/-- Of two records of one item, the later one finds the item, changed only by the records
in between. -/
theorem related (hfollows : Follows st log st')
    (hstep : ∀ r ∈ log, ∀ a, r.before = some a → ∀ b, r.after = some b → R a b) :
    log.Pairwise fun r r' => r'.name = r.name →
      ∃ a b, r.after = some a ∧ r'.before = some b ∧ R a b := by
  induction hfollows with
  | nil => exact List.Pairwise.nil
  | @cons st st' r rest _ hrest ih =>
      have hstep' := (List.forall_mem_cons.mp hstep).2
      refine List.Pairwise.cons (fun r' hr' hname => ?_) (ih hstep')
      obtain ⟨a, b, hcloses, hb, hR⟩ := related_of_status hrefl htrans hrest hstep' hr' (by
        rw [hname, Function.update_self]
        exact r.closes_ne_fresh)
      rw [hname, Function.update_self, Record.closes_eq_live_iff] at hcloses
      exact ⟨a, b, hcloses, hb, hR⟩

end Related

end Follows

/-! ## Steps of a roster -/

variable (r : Roster α)

/-- A name belongs to one item. -/
theorem eq_of_mem {n : Nat} {a b : α} (ha : (n, a) ∈ r.items) (hb : (n, b) ∈ r.items) : a = b := by
  have hnodup : (r.items.map Prod.fst).Nodup := r.sorted.imp Nat.ne_of_lt
  exact (Prod.mk.inj (List.inj_on_of_nodup_map hnodup ha hb rfl)).2

def status (n : Nat) : Status α :=
  match r.items.find? (·.1 = n) with
  | some x => .live x.2
  | none => if n < r.next then .gone else .fresh

/-- An item of the roster is live. -/
theorem status_of_mem {n : Nat} {a : α} (ha : (n, a) ∈ r.items) : r.status n = .live a := by
  unfold status
  cases hfind : r.items.find? (·.1 = n) with
  | none => exact absurd ha fun hmem => by simpa using List.find?_eq_none.mp hfind _ hmem
  | some x =>
      obtain ⟨m, b⟩ := x
      obtain rfl : m = n := by simpa using List.find?_some hfind
      rw [r.eq_of_mem ha (List.mem_of_find?_eq_some hfind)]

theorem mem_of_status {n : Nat} {a : α} (hstatus : r.status n = .live a) : (n, a) ∈ r.items := by
  unfold status at hstatus
  split at hstatus
  next x hfind =>
    cases hstatus
    obtain rfl : x.1 = n := by simpa using List.find?_some hfind
    exact List.mem_of_find?_eq_some hfind
  next => split at hstatus <;> cases hstatus

/-- A name without an item was either never given out or is gone for good. -/
theorem status_of_forall_ne {n : Nat} (hn : ∀ x ∈ r.items, x.1 ≠ n) :
    r.status n = if n < r.next then .gone else .fresh := by
  have hfind : r.items.find? (·.1 = n) = none :=
    List.find?_eq_none.mpr fun x hx => by simpa using hn x hx
  rw [status, hfind]

def ofList (l : List α) : Roster α where
  items := (List.range l.length).zip l
  next := l.length
  sorted := by
    rw [List.map_fst_zip (by simp)]
    exact List.pairwise_lt_range
  below x hx := List.mem_range.mp (List.of_mem_zip hx).1

theorem map_snd_ofList (l : List α) : (ofList l).items.map Prod.snd = l :=
  List.map_snd_zip (by simp)

variable (turn : Nat → α → Option α × β) (born : Option (α × β))

/-- The records of a step: what becomes of each item, and the item that enters. -/
def records : List (Record α β) :=
  r.items.map (fun x => ⟨x.1, some x.2, (turn x.1 x.2).1, (turn x.1 x.2).2⟩) ++
    (born.map fun b => ⟨r.next, none, some b.1, b.2⟩).toList

def advance : Roster α where
  items := r.items.filterMap (fun x => (turn x.1 x.2).1.map (x.1, ·)) ++
    (born.map fun b => (r.next, b.1)).toList
  next := r.next + born.toList.length
  sorted := by
    rw [List.map_append, List.pairwise_append]
    refine ⟨?_, ?_, ?_⟩
    · refine r.sorted.sublist ?_
      generalize r.items = items
      induction items with
      | nil => exact List.Sublist.refl _
      | cons x rest ih =>
          cases hturn : (turn x.1 x.2).1 with
          | none => simpa [List.filterMap_cons, hturn] using ih.cons x.1
          | some a => simpa [List.filterMap_cons, hturn] using ih
    · cases born <;> simp
    · cases born with
      | none => simp
      | some b =>
          intro n hn m hm
          obtain ⟨y, hy, rfl⟩ := List.mem_map.mp hn
          obtain ⟨x, hx, hxy⟩ := List.mem_filterMap.mp hy
          obtain ⟨a, -, rfl⟩ := Option.map_eq_some_iff.mp hxy
          simp only [Option.map_some, Option.toList_some, List.map_singleton,
            List.mem_singleton] at hm
          exact hm ▸ r.below x hx
  below := by
    intro y hy
    rcases List.mem_append.mp hy with hy | hy
    · obtain ⟨x, hx, hxy⟩ := List.mem_filterMap.mp hy
      obtain ⟨a, -, rfl⟩ := Option.map_eq_some_iff.mp hxy
      exact (r.below x hx).trans_le (Nat.le_add_right _ _)
    · cases born with
      | none => cases hy
      | some b =>
          rw [List.mem_singleton.mp hy]
          exact Nat.lt_succ_self r.next

theorem map_snd_advance : (r.advance turn born).items.map Prod.snd =
    (r.items.filterMap fun x => (turn x.1 x.2).1) ++ (born.map Prod.fst).toList := by
  simp only [advance, List.map_append, List.map_filterMap, Option.map_map]
  cases born <;> simp [Function.comp_def]

/-- The records of a step read back the items it started with. -/
theorem filterMap_before_records :
    (r.records turn born).filterMap Record.before = r.items.map Prod.snd := by
  cases born <;> simp [records, List.filterMap_map, List.filterMap_eq_map']

/-- The records of a step read back the items it ends with. -/
theorem filterMap_after_records : (r.records turn born).filterMap Record.after =
    (r.advance turn born).items.map Prod.snd := by
  rw [map_snd_advance]
  cases born <;> simp [records, List.filterMap_map]

theorem mem_records_iff {rec : Record α β} : rec ∈ r.records turn born ↔
    (∃ x ∈ r.items, rec = ⟨x.1, some x.2, (turn x.1 x.2).1, (turn x.1 x.2).2⟩) ∨
      ∃ b, born = some b ∧ rec = ⟨r.next, none, some b.1, b.2⟩ := by
  cases born <;> simp [records, eq_comm]

/-- A step has one record for each item. -/
theorem nodup_name_records : ((r.records turn born).map Record.name).Nodup := by
  have hitems : (r.items.map Prod.fst).Nodup := r.sorted.imp Nat.ne_of_lt
  cases born with
  | none => simpa [records, Function.comp_def] using hitems
  | some b =>
      simp only [records, List.map_append, List.map_map, Function.comp_def, Option.map_some,
        Option.toList_some, List.map_singleton]
      rw [List.nodup_append_comm, List.singleton_append, List.nodup_cons]
      refine ⟨fun hmem => ?_, hitems⟩
      obtain ⟨x, hx, hname⟩ := List.mem_map.mp hmem
      exact absurd (r.below x hx) (hname ▸ Nat.lt_irrefl _)

/-- An item of a step has one record. -/
theorem filter_name_records {rec : Record α β} (hrec : rec ∈ r.records turn born) :
    (r.records turn born).filter (·.name = rec.name) = [rec] := by
  have hnodup := r.nodup_name_records turn born
  obtain ⟨pre, post, hsplit⟩ := List.append_of_mem hrec
  rw [hsplit, List.map_append, List.map_cons, List.nodup_middle, List.nodup_cons,
    List.mem_append] at hnodup
  have hnone : ∀ part : List (Record α β), rec.name ∉ part.map Record.name →
      part.filter (·.name = rec.name) = [] := by
    intro part hpart
    rw [List.filter_eq_nil_iff]
    intro x hx hname
    exact hpart (of_decide_eq_true hname ▸ List.mem_map_of_mem hx)
  rw [hsplit, List.filter_append, List.filter_cons_of_pos (by simp),
    hnone pre fun h => hnodup.1 (Or.inl h), hnone post fun h => hnodup.1 (Or.inr h)]
  rfl

theorem mem_advance_iff {n : Nat} {a : α} : (n, a) ∈ (r.advance turn born).items ↔
    (∃ e, (n, e) ∈ r.items ∧ (turn n e).1 = some a) ∨ ∃ b, born = some b ∧ n = r.next ∧ a = b.1 := by
  simp only [advance, List.mem_append, List.mem_filterMap, Option.map_eq_some_iff, Prod.mk.injEq,
    Option.mem_toList]
  constructor
  · rintro (⟨x, hx, a, ha, rfl, rfl⟩ | ⟨b, hb, rfl, rfl⟩)
    · exact Or.inl ⟨x.2, hx, ha⟩
    · exact Or.inr ⟨b, hb, rfl, rfl⟩
  · rintro (⟨e, he, ha⟩ | ⟨b, hb, rfl, rfl⟩)
    · exact Or.inl ⟨(n, e), he, a, ha, rfl, rfl⟩
    · exact Or.inr ⟨b, hb, rfl, rfl⟩

/-- The records of a step lead from the items before it to those after it. -/
theorem follows_records :
    Follows r.status (r.records turn born) (r.advance turn born).status := by
  refine .of_nodup (r.nodup_name_records turn born) ?_ ?_ ?_
  · intro rec hrec
    rcases (r.mem_records_iff turn born).mp hrec with ⟨x, hx, rfl⟩ | ⟨b, -, rfl⟩
    · exact r.status_of_mem hx
    · have hnew : ∀ x ∈ r.items, x.1 ≠ r.next := fun x hx => (r.below x hx).ne
      rw [r.status_of_forall_ne hnew, if_neg (Nat.lt_irrefl _)]
      rfl
  · intro rec hrec
    rcases (r.mem_records_iff turn born).mp hrec with ⟨x, hx, rfl⟩ | ⟨b, hb, rfl⟩
    · cases hturn : (turn x.1 x.2).1 with
      | some a =>
          rw [Record.closes, Option.elim_some]
          exact status_of_mem _ ((r.mem_advance_iff turn born).mpr (Or.inl ⟨x.2, hx, hturn⟩))
      | none =>
          -- the item is not among those after the step, its number is not given again
          have hleft : ∀ y ∈ (r.advance turn born).items, y.1 ≠ x.1 := by
            rintro ⟨m, a⟩ hy rfl
            rcases (r.mem_advance_iff turn born).mp hy with ⟨e, he, ha⟩ | ⟨b, -, hm, -⟩
            · rw [r.eq_of_mem he hx, hturn] at ha
              cases ha
            · exact absurd (r.below x hx) (hm ▸ Nat.lt_irrefl _)
          rw [status_of_forall_ne _ hleft, if_pos]
          · rfl
          · exact (r.below x hx).trans_le (Nat.le_add_right _ _)
    · exact status_of_mem _ ((r.mem_advance_iff turn born).mpr (Or.inr ⟨b, hb, rfl, rfl⟩))
  · intro n hn
    have hold : ∀ x ∈ r.items, x.1 ≠ n := fun x hx hname =>
      hn (List.mem_map.mpr ⟨_, (r.mem_records_iff turn born).mpr (Or.inl ⟨x, hx, rfl⟩), hname⟩)
    have hborn : ∀ b, born = some b → r.next ≠ n := fun b hb hname =>
      hn (List.mem_map.mpr ⟨_, (r.mem_records_iff turn born).mpr (Or.inr ⟨b, hb, rfl⟩), hname⟩)
    have hleft : ∀ y ∈ (r.advance turn born).items, y.1 ≠ n := by
      rintro ⟨m, a⟩ hy rfl
      rcases (r.mem_advance_iff turn born).mp hy with ⟨e, he, -⟩ | ⟨b, hb, rfl, -⟩
      · exact hold _ he rfl
      · exact hborn b hb rfl
    rw [status_of_forall_ne _ hleft, r.status_of_forall_ne hold]
    have hlt : n < (r.advance turn born).next ↔ n < r.next := by
      cases born with
      | none => rfl
      | some b =>
          have hne := hborn b rfl
          change n < r.next + 1 ↔ n < r.next
          omega
    simp only [hlt]

end Roster
