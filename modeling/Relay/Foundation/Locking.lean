import Relay.Foundation.Machine
import Relay.Foundation.Program

/-! # Two-phase locking

Threads run transactions one after the other. A transaction takes locks, reads and
writes the cells that the locks protect, and lets the locks go. If it takes its locks in
ascending order and takes none after it has let one go, then two things follow for any
number of threads under any schedule: the transactions might as well happen one at a time,
each at an instant between its first and its last step, and the threads never all wait for
each other.
-/

namespace Locking

/-! ## Transactions -/

section Code

variable {L : Type} (Cell : L → Type)

/-- Operations on locks and cells; a failure is for good. -/
inductive Op where
  | acquire (l : L)
  | release (l : L)
  | read (l : L)
  | write (l : L) (v : Cell l)
  | fail

@[reducible] def Op.Result : Op Cell → Type
  | .read l => Cell l
  | .fail => Empty
  | _ => Unit

/-- The code of a transaction that returns an `A`. -/
abbrev Code : Type → Type := Program (Op Cell) (Op.Result Cell)

abbrev Memory := (l : L) → Cell l

end Code

variable {L : Type} [LinearOrder L] {Cell : L → Type} {A : Type}

def Op.perform (m : Memory Cell) : (op : Op Cell) → Option (op.Result × Memory Cell)
  | .acquire _ => some ((), m)
  | .release _ => some ((), m)
  | .read l => some (m l, m)
  | .write l v => some ((), Function.update m l v)
  | .fail => none

/-- What a transaction returns and leaves behind when there is one thread only. -/
def alone (code : Code Cell A) (m : Memory Cell) : Option (A × Memory Cell) :=
  code.exec Op.perform m

/-- The code, holding some locks, keeps to the rules: it uses the cells whose locks it
holds, takes locks in ascending order and only while it is growing, does not fail once it
has let a lock go, and ends without locks. -/
def Disciplined : Bool → Finset L → Code Cell A → Prop
  | _, held, .done _ => held = ∅
  | growing, held, .call (.acquire l) next =>
      growing = true ∧ (∀ l' ∈ held, l' < l) ∧ Disciplined true (insert l held) (next ())
  | _, held, .call (.release l) next => l ∈ held ∧ Disciplined false (held.erase l) (next ())
  | growing, held, .call (.read l) next => l ∈ held ∧ ∀ v, Disciplined growing held (next v)
  | growing, held, .call (.write l _) next => l ∈ held ∧ Disciplined growing held (next ())
  | growing, _, .call .fail _ => growing = true

/-- Code that has let a lock go succeeds, depends on the cells it still holds and changes
no others. -/
theorem Disciplined.alone_congr {held : Finset L} {code : Code Cell A}
    (hcode : Disciplined false held code) {m m' : Memory Cell} (hsame : ∀ l ∈ held, m l = m' l) :
    ∃ a n n', alone code m = some (a, n) ∧ alone code m' = some (a, n') ∧
      (∀ l ∈ held, n l = n' l) ∧ (∀ l ∉ held, n l = m l) ∧ ∀ l ∉ held, n' l = m' l := by
  induction code generalizing held m m' with
  | done a => exact ⟨a, m, m', rfl, rfl, hsame, fun _ _ => rfl, fun _ _ => rfl⟩
  | call op next ih =>
      cases op with
      | acquire l => cases hcode.1
      | fail => cases hcode
      | release l =>
          have hfewer : ∀ l' ∈ held.erase l, m l' = m' l' :=
            fun l' hl' => hsame l' (Finset.mem_of_mem_erase hl')
          obtain ⟨a, n, n', hn, hn', hheld, hoff, hoff'⟩ := ih () hcode.2 hfewer
          refine ⟨a, n, n', hn, hn', fun l' hl' => ?_, fun l' hl' => ?_, fun l' hl' => ?_⟩
          · by_cases heq : l' = l
            · subst heq
              rw [hoff l' (Finset.notMem_erase _ _), hoff' l' (Finset.notMem_erase _ _)]
              exact hsame l' hl'
            · exact hheld l' (Finset.mem_erase.mpr ⟨heq, hl'⟩)
          · exact hoff l' fun h => hl' (Finset.mem_of_mem_erase h)
          · exact hoff' l' fun h => hl' (Finset.mem_of_mem_erase h)
      | read l =>
          obtain ⟨a, n, n', hn, hn', hrest⟩ := ih (m l) (hcode.2 (m l)) hsame
          refine ⟨a, n, n', hn, ?_, hrest⟩
          rw [hsame l hcode.1] at hn'
          exact hn'
      | write l v =>
          have hwritten : ∀ l' ∈ held, Function.update m l v l' = Function.update m' l v l' := by
            intro l' hl'
            by_cases heq : l' = l
            · subst heq
              rw [Function.update_self, Function.update_self]
            · rw [Function.update_of_ne heq, Function.update_of_ne heq]
              exact hsame l' hl'
          obtain ⟨a, n, n', hn, hn', hheld, hoff, hoff'⟩ := ih () hcode.2 hwritten
          refine ⟨a, n, n', hn, hn', hheld, fun l' hl' => ?_, fun l' hl' => ?_⟩
          · rw [hoff l' hl', Function.update_of_ne (ne_of_mem_of_not_mem hcode.1 hl').symm]
          · rw [hoff' l' hl', Function.update_of_ne (ne_of_mem_of_not_mem hcode.1 hl').symm]

/-! ## Threads -/

section Threads

variable (Cell) (K : Type) [DecidableEq K] (Txn : Type) (Res : Txn → Type) (Env B : Type)

/-- Where a thread is: between two transactions, or in the middle of one, with what it
goes on with afterwards. -/
inductive Status where
  | outside (prog : Program Txn Res B)
  | inside (e : Env) (t : Txn) (rest : Code Cell (Res t)) (next : Res t → Program Txn Res B)

variable {Cell Txn Res Env B} in
def Status.busy : Status Cell Txn Res Env B → Bool
  | .inside .. => true
  | .outside _ => false

variable {Cell Txn Res Env B} in
def Status.failed : Status Cell Txn Res Env B → Bool
  | .inside _ _ (.call .fail _) _ => true
  | _ => false

structure Threads where
  memory : Memory Cell
  owner : L → Option K
  status : K → Status Cell Txn Res Env B

/-- A thread begins a transaction, reading something from outside, or goes on with the
one it is in. -/
inductive Event where
  | start (k : K) (e : Env)
  | go (k : K)

/-- The threads when every transaction is carried out at one instant. -/
structure Atomic where
  memory : Memory Cell
  prog : K → Program Txn Res B

end Threads

variable {K : Type} [DecidableEq K] {Txn : Type} {Res : Txn → Type} {Env B : Type}

abbrev Event.thread : Event K Env → K
  | .start k _ => k
  | .go k => k

namespace Threads

/-- A thread's operation; it waits while another one has the lock it wants. -/
def perform (s : Threads Cell K Txn Res Env B) (k : K) :
    (op : Op Cell) → Option (op.Result × Threads Cell K Txn Res Env B)
  | .acquire l =>
      if s.owner l = none then some ((), { s with owner := Function.update s.owner l (some k) })
      else none
  | .release l =>
      if s.owner l = some k then some ((), { s with owner := Function.update s.owner l none })
      else none
  | .read l => some (s.memory l, s)
  | .write l v => some ((), { s with memory := Function.update s.memory l v })
  | .fail => none

def become (s : Threads Cell K Txn Res Env B) (k : K) (status : Status Cell Txn Res Env B) :
    Threads Cell K Txn Res Env B :=
  { s with status := Function.update s.status k status }

def step (code : Env → (t : Txn) → Code Cell (Res t)) (s : Threads Cell K Txn Res Env B) :
    Event K Env → Option (Threads Cell K Txn Res Env B)
  | .start k e =>
      match s.status k with
      | .outside (.call t next) => some (s.become k (.inside e t (code e t) next))
      | _ => none
  | .go k =>
      match s.status k with
      | .inside _ _ (.done a) next => some (s.become k (.outside (next a)))
      | .inside e t (.call op rest) next =>
          (s.perform k op).map fun out => out.2.become k (.inside e t (rest out.1) next)
      | .outside _ => none

end Threads

/-- One thread carries out its next transaction. -/
def Atomic.step (code : Env → (t : Txn) → Code Cell (Res t)) (a : Atomic Cell K Txn Res B)
    (turn : K × Env) : Option (Atomic Cell K Txn Res B) :=
  match a.prog turn.1 with
  | .call t next =>
      (alone (code turn.2 t) a.memory).map fun out =>
        ⟨out.2, Function.update a.prog turn.1 (next out.1)⟩
  | .done _ => none

/-! ## One transaction at a time

A transaction takes effect when it lets its first lock go. Until then the cells it holds
are, in the atomic world, what they were when it took their locks; from then on they are
what it is going to leave behind. -/

def overlay (held : Finset L) (m m₀ : Memory Cell) : Memory Cell :=
  fun l => if l ∈ held then m l else m₀ l

/-- A thread without locks contributes nothing. -/
theorem overlay_empty (m m₀ : Memory Cell) : overlay ∅ m m₀ = m₀ := by
  funext l
  rw [overlay, if_neg (Finset.notMem_empty l)]

/-- Only the cells under held locks matter. -/
theorem overlay_congr {held : Finset L} {m m' : Memory Cell} (hsame : ∀ l ∈ held, m l = m' l)
    (m₀ : Memory Cell) : overlay held m m₀ = overlay held m' m₀ := by
  funext l
  unfold overlay
  split
  next hl => exact hsame l hl
  next => rfl

/-- A cell that is taken as it is found. -/
theorem overlay_insert {held : Finset L} {m m₀ : Memory Cell} {l : L} (hl : m₀ l = m l) :
    overlay (insert l held) m m₀ = overlay held m m₀ := by
  funext l'
  simp only [overlay, Finset.mem_insert]
  by_cases heq : l' = l
  · subst heq
    simp [hl]
  · simp [heq]

theorem overlay_update {held : Finset L} {m m₀ : Memory Cell} {l : L} (hl : l ∈ held) (v : Cell l) :
    overlay held (Function.update m l v) m₀ = Function.update (overlay held m m₀) l v := by
  funext l'
  by_cases heq : l' = l
  · subst heq
    rw [overlay, if_pos hl, Function.update_self, Function.update_self]
  · rw [overlay, Function.update_of_ne heq, Function.update_of_ne heq, overlay]

section Simulation

variable {code : Env → (t : Txn) → Code Cell (Res t)} {s s' : Threads Cell K Txn Res Env B}
  {a a' : Atomic Cell K Txn Res B} {k : K} {held : Finset L}

variable (code) in
/-- How a thread that holds some locks stands in the atomic world. -/
inductive Standing (s : Threads Cell K Txn Res Env B) (a : Atomic Cell K Txn Res B) (k : K)
    (held : Finset L) : Prop where
  | outside {prog : Program Txn Res B} (hstatus : s.status k = .outside prog)
      (hprog : a.prog k = prog) (hheld : held = ∅)
  | growing {e : Env} {t : Txn} {rest : Code Cell (Res t)} {next : Res t → Program Txn Res B}
      (hstatus : s.status k = .inside e t rest next) (hprog : a.prog k = .call t next)
      (hrest : Disciplined true held rest)
      (halone : ∀ m, (∀ l ∈ held, m l = a.memory l) →
        alone (code e t) m = alone rest (overlay held s.memory m))
  | shrinking {e : Env} {t : Txn} {rest : Code Cell (Res t)} {next : Res t → Program Txn Res B}
      {out : Res t} {m : Memory Cell} (hstatus : s.status k = .inside e t rest next)
      (hprog : a.prog k = next out) (hrest : Disciplined false held rest)
      (halone : alone rest s.memory = some (out, m)) (hmemory : ∀ l ∈ held, a.memory l = m l)

omit [DecidableEq K] in
/-- A thread does not notice what others do to cells it does not hold. -/
theorem Standing.frame (hk : Standing code s a k held) (hstatus : s'.status k = s.status k)
    (hprog : a'.prog k = a.prog k) (hmemory : ∀ l ∈ held, s'.memory l = s.memory l)
    (hatomic : ∀ l ∈ held, a'.memory l = a.memory l) : Standing code s' a' k held := by
  cases hk with
  | outside hstatus₀ hprog₀ hheld =>
      exact .outside (hstatus.trans hstatus₀) (hprog.trans hprog₀) hheld
  | growing hstatus₀ hprog₀ hrest halone =>
      refine .growing (hstatus.trans hstatus₀) (hprog.trans hprog₀) hrest fun m hm => ?_
      rw [overlay_congr hmemory]
      exact halone m fun l hl => (hm l hl).trans (hatomic l hl)
  | @shrinking e t rest next out m hstatus₀ hprog₀ hrest halone hcells =>
      obtain ⟨out', n, n', hn, hn', hheld, -, -⟩ := hrest.alone_congr hmemory
      rw [halone] at hn'
      cases hn'
      refine .shrinking (hstatus.trans hstatus₀) (hprog.trans hprog₀) hrest hn fun l hl => ?_
      rw [hatomic l hl, hcells l hl, hheld l hl]

omit [DecidableEq K] in
/-- What is left of a transaction keeps to the rules. -/
theorem Standing.disciplined (hk : Standing code s a k held) {e : Env} {t : Txn}
    {rest : Code Cell (Res t)} {next : Res t → Program Txn Res B}
    (hstatus : s.status k = .inside e t rest next) : ∃ growing, Disciplined growing held rest := by
  cases hk with
  | outside hstatus' => cases hstatus.symm.trans hstatus'
  | growing hstatus' _ hrest =>
      cases hstatus.symm.trans hstatus'
      exact ⟨true, hrest⟩
  | shrinking hstatus' _ hrest =>
      cases hstatus.symm.trans hstatus'
      exact ⟨false, hrest⟩

variable (code) in
/-- The threads and the atomic world agree on the free cells, and every thread stands
well. -/
structure Simulates (s : Threads Cell K Txn Res Env B) (a : Atomic Cell K Txn Res B) : Prop where
  free : ∀ l, s.owner l = none → a.memory l = s.memory l
  standing : ∀ k, ∃ held : Finset L, (∀ l, l ∈ held ↔ s.owner l = some k) ∧ Standing code s a k held

/-- One thread acts on its own cells, and takes or lets go of one lock at most. -/
theorem Simulates.update (hsim : Simulates code s a) (k : K)
    (hothers : ∀ j, j ≠ k → s'.status j = s.status j ∧ a'.prog j = a.prog j ∧
      ∀ l, s'.owner l = some j ↔ s.owner l = some j)
    (hcells : ∀ l j, j ≠ k → s.owner l = some j →
      s'.memory l = s.memory l ∧ a'.memory l = a.memory l)
    (hfree : ∀ l, s'.owner l = none → a'.memory l = s'.memory l)
    (hk : ∃ held : Finset L, (∀ l, l ∈ held ↔ s'.owner l = some k) ∧ Standing code s' a' k held) :
    Simulates code s' a' := by
  refine ⟨hfree, fun j => ?_⟩
  by_cases hj : j = k
  · subst hj
    exact hk
  · obtain ⟨held, hheld, hstanding⟩ := hsim.standing j
    obtain ⟨hstatus, hprog, howner⟩ := hothers j hj
    refine ⟨held, fun l => (hheld l).trans (howner l).symm, ?_⟩
    exact hstanding.frame hstatus hprog (fun l hl => (hcells l j hj ((hheld l).mp hl)).1)
      fun l hl => (hcells l j hj ((hheld l).mp hl)).2

omit [LinearOrder L] in
theorem Threads.status_become_of_ne (s : Threads Cell K Txn Res Env B) {j k : K} (hj : j ≠ k)
    (status : Status Cell Txn Res Env B) : (s.become k status).status j = s.status j :=
  Function.update_of_ne hj _ _

omit [LinearOrder L] in
theorem Threads.status_become (s : Threads Cell K Txn Res Env B) (k : K)
    (status : Status Cell Txn Res Env B) : (s.become k status).status k = status :=
  Function.update_self _ _ _

/-- A thread begins a transaction. -/
theorem Simulates.start (hcode : ∀ e t, Disciplined true ∅ (code e t)) (hsim : Simulates code s a)
    {t : Txn} {next : Res t → Program Txn Res B}
    (hstatus : s.status k = .outside (.call t next)) (e : Env) :
    Simulates code (s.become k (.inside e t (code e t) next)) a := by
  refine hsim.update k (fun j hj => ⟨s.status_become_of_ne hj _, rfl, fun l => Iff.rfl⟩)
    (fun l j _ _ => ⟨rfl, rfl⟩) hsim.free ?_
  obtain ⟨held, hheld, hstanding⟩ := hsim.standing k
  refine ⟨held, hheld, ?_⟩
  cases hstanding with
  | outside hstatus' hprog hnone =>
      rw [hstatus] at hstatus'
      cases hstatus'
      subst hnone
      refine .growing (s.status_become k _) hprog (hcode e t) fun m _ => ?_
      rw [overlay_empty]
  | growing hstatus' => cases hstatus.symm.trans hstatus'
  | shrinking hstatus' => cases hstatus.symm.trans hstatus'

/-- A transaction is over. If it has not let a lock go, it takes effect now. -/
theorem Simulates.finish (hsim : Simulates code s a) {e : Env} {t : Txn} {out : Res t}
    {next : Res t → Program Txn Res B} (hstatus : s.status k = .inside e t (.done out) next) :
    ∃ a', (a' = a ∨ a.step code (k, e) = some a') ∧
      Simulates code (s.become k (.outside (next out))) a' := by
  obtain ⟨held, hheld, hstanding⟩ := hsim.standing k
  cases hstanding with
  | outside hstatus' => cases hstatus.symm.trans hstatus'
  | growing hstatus' hprog hrest halone =>
      cases hstatus.symm.trans hstatus'
      have hnone : held = ∅ := hrest
      subst hnone
      have heffect : alone (code e t) a.memory = some (out, a.memory) := by
        rw [halone a.memory fun _ _ => rfl, overlay_empty]
        rfl
      refine ⟨⟨a.memory, Function.update a.prog k (next out)⟩, Or.inr ?_, ?_⟩
      · simp only [Atomic.step, hprog, heffect, Option.map_some]
      · refine hsim.update k (fun j hj => ⟨s.status_become_of_ne hj _,
          Function.update_of_ne hj _ _, fun l => Iff.rfl⟩) (fun l j _ _ => ⟨rfl, rfl⟩) hsim.free ?_
        exact ⟨∅, hheld, .outside (s.status_become k _) (Function.update_self _ _ _) rfl⟩
  | shrinking hstatus' hprog hrest halone hcells =>
      cases hstatus.symm.trans hstatus'
      have hnone : held = ∅ := hrest
      cases halone
      refine ⟨a, Or.inl rfl, hsim.update k (fun j hj => ⟨s.status_become_of_ne hj _, rfl,
        fun l => Iff.rfl⟩) (fun l j _ _ => ⟨rfl, rfl⟩) hsim.free ?_⟩
      exact ⟨held, hheld, .outside (s.status_become k _) hprog hnone⟩

omit [DecidableEq K] in
/-- A lock changes hands between others. -/
theorem update_eq_some_iff {owner : L → Option K} {l : L} {o : Option K} {j : K}
    (hbefore : owner l ≠ some j) (hafter : o ≠ some j) (l' : L) :
    Function.update owner l o l' = some j ↔ owner l' = some j := by
  by_cases heq : l' = l
  · subst heq
    rw [Function.update_self]
    exact iff_of_false hafter hbefore
  · rw [Function.update_of_ne heq]

section Perform

variable {e : Env} {t : Txn} {next : Res t → Program Txn Res B}

/-- A lock that is free is taken by a transaction that is growing, with its cell as it is. -/
theorem Simulates.acquire (hsim : Simulates code s a) {l : L} {rest : Unit → Code Cell (Res t)}
    (hstatus : s.status k = .inside e t (.call (.acquire l) rest) next) (hfree : s.owner l = none) :
    Simulates code (Threads.become { s with owner := Function.update s.owner l (some k) } k
      (.inside e t (rest ()) next)) a := by
  refine hsim.update k (fun j hj => ⟨Threads.status_become_of_ne _ hj _, rfl,
    update_eq_some_iff ?_ ?_⟩) (fun l j _ _ => ⟨rfl, rfl⟩) (fun l' hl' => hsim.free l' ?_) ?_
  · rw [hfree]
    exact (Option.some_ne_none j).symm
  · exact fun heq => hj (Option.some.inj heq).symm
  · change Function.update s.owner l (some k) l' = none at hl'
    by_cases heq : l' = l
    · subst heq
      rw [Function.update_self] at hl'
      cases hl'
    · rwa [Function.update_of_ne heq] at hl'
  · obtain ⟨held, hheld, hstanding⟩ := hsim.standing k
    refine ⟨insert l held, fun l' => ?_, ?_⟩
    · change _ ↔ Function.update s.owner l (some k) l' = some k
      rw [Finset.mem_insert, hheld l']
      by_cases heq : l' = l
      · subst heq
        simp
      · simp [heq]
    · cases hstanding with
      | outside hstatus' => cases hstatus.symm.trans hstatus'
      | shrinking hstatus' _ hrest =>
          cases hstatus.symm.trans hstatus'
          cases hrest.1
      | growing hstatus' hprog hrest halone =>
          cases hstatus.symm.trans hstatus'
          refine .growing (Threads.status_become _ k _) hprog hrest.2.2 fun m hm => ?_
          have hfound : m l = s.memory l :=
            (hm l (Finset.mem_insert_self l held)).trans (hsim.free l hfree)
          rw [halone m fun l' hl' => hm l' (Finset.mem_insert_of_mem hl')]
          change _ = alone (rest ()) (overlay (insert l held) s.memory m)
          rw [overlay_insert hfound]
          rfl

/-- Reading a cell is invisible to the atomic world: the thread holds its lock. -/
theorem Simulates.read (hsim : Simulates code s a) {l : L} {rest : Cell l → Code Cell (Res t)}
    (hstatus : s.status k = .inside e t (.call (.read l) rest) next) :
    Simulates code (s.become k (.inside e t (rest (s.memory l)) next)) a := by
  refine hsim.update k (fun j hj => ⟨s.status_become_of_ne hj _, rfl, fun l' => Iff.rfl⟩)
    (fun l j _ _ => ⟨rfl, rfl⟩) hsim.free ?_
  obtain ⟨held, hheld, hstanding⟩ := hsim.standing k
  refine ⟨held, hheld, ?_⟩
  cases hstanding with
  | outside hstatus' => cases hstatus.symm.trans hstatus'
  | growing hstatus' hprog hrest halone =>
      cases hstatus.symm.trans hstatus'
      refine .growing (s.status_become k _) hprog (hrest.2 _) fun m hm => ?_
      have hread : overlay held s.memory m l = s.memory l := if_pos hrest.1
      rw [halone m hm, ← hread]
      rfl
  | shrinking hstatus' hprog hrest halone hcells =>
      cases hstatus.symm.trans hstatus'
      exact .shrinking (s.status_become k _) hprog (hrest.2 _) halone hcells

/-- A write stays with the thread until it lets the lock go. -/
theorem Simulates.write (hsim : Simulates code s a) {l : L} {v : Cell l}
    {rest : Unit → Code Cell (Res t)}
    (hstatus : s.status k = .inside e t (.call (.write l v) rest) next) :
    Simulates code (Threads.become { s with memory := Function.update s.memory l v } k
      (.inside e t (rest ()) next)) a := by
  obtain ⟨held, hheld, hstanding⟩ := hsim.standing k
  have hown : s.owner l = some k := by
    obtain ⟨growing, hrest⟩ := hstanding.disciplined hstatus
    exact (hheld l).mp hrest.1
  have hother (l' : L) (hl' : s.owner l' ≠ some k) :
      Function.update s.memory l v l' = s.memory l' := by
    refine Function.update_of_ne ?_ _ _
    rintro rfl
    exact hl' hown
  refine hsim.update k (fun j hj => ⟨Threads.status_become_of_ne _ hj _, rfl, fun l' => Iff.rfl⟩)
    (fun l' j hj hl' => ⟨hother l' ?_, rfl⟩) (fun l' hl' => ?_) ⟨held, hheld, ?_⟩
  · rw [hl']
    exact fun heq => hj (Option.some.inj heq)
  · have hl'' : s.owner l' = none := hl'
    refine (hsim.free l' hl').trans (hother l' ?_).symm
    rw [hl'']
    exact (Option.some_ne_none k).symm
  · cases hstanding with
    | outside hstatus' => cases hstatus.symm.trans hstatus'
    | growing hstatus' hprog hrest halone =>
        cases hstatus.symm.trans hstatus'
        refine .growing (Threads.status_become _ k _) hprog hrest.2 fun m hm => ?_
        rw [halone m hm]
        change _ = alone (rest ()) (overlay held (Function.update s.memory l v) m)
        rw [overlay_update hrest.1]
        rfl
    | shrinking hstatus' hprog hrest halone hcells =>
        cases hstatus.symm.trans hstatus'
        exact .shrinking (Threads.status_become _ k _) hprog hrest.2 halone hcells

/-- A lock is let go. With the first one the transaction takes effect. -/
theorem Simulates.release (hsim : Simulates code s a) {l : L} {rest : Unit → Code Cell (Res t)}
    (hstatus : s.status k = .inside e t (.call (.release l) rest) next)
    (hown : s.owner l = some k) :
    ∃ a', (a' = a ∨ a.step code (k, e) = some a') ∧
      Simulates code (Threads.become { s with owner := Function.update s.owner l none } k
        (.inside e t (rest ()) next)) a' := by
  obtain ⟨held, hheld, hstanding⟩ := hsim.standing k
  have howner (j : K) (hj : j ≠ k) (l' : L) :
      Function.update s.owner l none l' = some j ↔ s.owner l' = some j := by
    refine update_eq_some_iff ?_ (Option.some_ne_none j).symm l'
    rw [hown]
    exact fun heq => hj (Option.some.inj heq).symm
  have hfewer (l' : L) : l' ∈ held.erase l ↔ Function.update s.owner l none l' = some k := by
    rw [Finset.mem_erase, hheld l']
    by_cases heq : l' = l
    · subst heq
      simp
    · simp [heq]
  have hnotheld (j : K) (hj : j ≠ k) (l' : L) (hl' : s.owner l' = some j) : l' ∉ held := by
    rw [hheld l', hl']
    exact fun heq => hj (Option.some.inj heq)
  cases hstanding with
  | outside hstatus' => cases hstatus.symm.trans hstatus'
  | growing hstatus' hprog hrest halone =>
      cases hstatus.symm.trans hstatus'
      -- what the transaction leaves behind, seen from the atomic world and from here
      have hagree : ∀ l' ∈ held.erase l, overlay held s.memory a.memory l' = s.memory l' :=
        fun l' hl' => if_pos (Finset.mem_of_mem_erase hl')
      obtain ⟨out, n, n', hn, hn', hsame, hoff, -⟩ := hrest.2.alone_congr hagree
      have heffect : alone (code e t) a.memory = some (out, n) :=
        (halone a.memory fun _ _ => rfl).trans hn
      have hkept (l' : L) (hl' : l' ∉ held) : n l' = a.memory l' := by
        rw [hoff l' fun h => hl' (Finset.mem_of_mem_erase h)]
        exact if_neg hl'
      refine ⟨⟨n, Function.update a.prog k (next out)⟩, Or.inr ?_, ?_⟩
      · simp only [Atomic.step, hprog, heffect, Option.map_some]
      · refine hsim.update k (fun j hj => ⟨Threads.status_become_of_ne _ hj _,
          Function.update_of_ne hj _ _, howner j hj⟩)
          (fun l' j hj hl' => ⟨rfl, hkept l' (hnotheld j hj l' hl')⟩) (fun l' hl' => ?_)
          ⟨held.erase l, hfewer, ?_⟩
        · have hl'' : Function.update s.owner l none l' = none := hl'
          by_cases heq : l' = l
          · subst heq
            exact (hoff l' (Finset.notMem_erase _ _)).trans (if_pos hrest.1)
          · rw [Function.update_of_ne heq] at hl''
            refine (hkept l' ?_).trans (hsim.free l' hl'')
            rw [hheld l', hl'']
            exact (Option.some_ne_none k).symm
        · exact .shrinking (Threads.status_become _ k _) (Function.update_self _ _ _) hrest.2 hn'
            hsame
  | @shrinking _ _ _ _ out m hstatus' hprog hrest halone hcells =>
      cases hstatus.symm.trans hstatus'
      obtain ⟨out', n, n', hn, -, -, hoff, -⟩ := hrest.2.alone_congr fun l' _ => rfl
      have hleft : alone (rest ()) s.memory = some (out, m) := halone
      rw [hleft] at hn
      cases hn
      refine ⟨a, Or.inl rfl, hsim.update k (fun j hj => ⟨Threads.status_become_of_ne _ hj _, rfl,
        howner j hj⟩) (fun l' j _ _ => ⟨rfl, rfl⟩) (fun l' hl' => ?_) ⟨held.erase l, hfewer, ?_⟩⟩
      · have hl'' : Function.update s.owner l none l' = none := hl'
        by_cases heq : l' = l
        · subst heq
          rw [hcells l' hrest.1]
          exact hoff l' (Finset.notMem_erase _ _)
        · rw [Function.update_of_ne heq] at hl''
          exact hsim.free l' hl''
      · exact .shrinking (Threads.status_become _ k _) hprog hrest.2 hleft
          fun l' hl' => hcells l' (Finset.mem_of_mem_erase hl')

end Perform

/-- The step lemma: to a step of a thread corresponds a whole transaction of it, or
nothing. -/
theorem Simulates.step (hcode : ∀ e t, Disciplined true ∅ (code e t)) (hsim : Simulates code s a)
    {ev : Event K Env} (hstep : s.step code ev = some s') :
    ∃ a', (a' = a ∨ ∃ e, a.step code (ev.thread, e) = some a') ∧ Simulates code s' a' := by
  cases ev with
  | start k e =>
      rw [Threads.step] at hstep
      split at hstep
      next t next hstatus =>
        cases hstep
        exact ⟨a, Or.inl rfl, hsim.start hcode hstatus e⟩
      next => cases hstep
  | go k =>
      -- the effect of one operation, if it has one
      have hlift {e : Env} {s₁ : Threads Cell K Txn Res Env B}
          (h : ∃ a', (a' = a ∨ a.step code (k, e) = some a') ∧ Simulates code s₁ a') :
          ∃ a', (a' = a ∨ ∃ e, a.step code (k, e) = some a') ∧ Simulates code s₁ a' := by
        obtain ⟨a', heffect, hsim'⟩ := h
        exact ⟨a', heffect.imp_right fun h => ⟨e, h⟩, hsim'⟩
      rw [Threads.step] at hstep
      split at hstep
      next e t out next hstatus =>
        cases hstep
        exact hlift (hsim.finish hstatus)
      next e t op rest next hstatus =>
        obtain ⟨out, hperform, rfl⟩ := Option.map_eq_some_iff.mp hstep
        cases op with
        | acquire l =>
            rw [Threads.perform] at hperform
            split at hperform
            next hfree =>
              cases hperform
              exact ⟨a, Or.inl rfl, hsim.acquire hstatus hfree⟩
            next => cases hperform
        | release l =>
            rw [Threads.perform] at hperform
            split at hperform
            next hown =>
              cases hperform
              exact hlift (hsim.release hstatus hown)
            next => cases hperform
        | read l =>
            cases hperform
            exact ⟨a, Or.inl rfl, hsim.read hstatus⟩
        | write l v =>
            cases hperform
            exact ⟨a, Or.inl rfl, hsim.write hstatus⟩
        | fail => cases hperform
      next => cases hstep

/-- The run lemma. -/
theorem Simulates.run (hcode : ∀ e t, Disciplined true ∅ (code e t)) (hsim : Simulates code s a)
    {events : List (Event K Env)} (hrun : Machine.run (Threads.step code) s events = some s') :
    ∃ turns a', Machine.run (Atomic.step code) a turns = some a' ∧ Simulates code s' a' := by
  induction events generalizing s a with
  | nil =>
      cases hrun
      exact ⟨[], a, rfl, hsim⟩
  | cons ev events ih =>
      obtain ⟨s₁, hstep, hrest⟩ := Machine.run_cons_eq_some.mp hrun
      obtain ⟨a₁, heffect, hsim₁⟩ := hsim.step hcode hstep
      obtain ⟨turns, a', hturns, hsim'⟩ := ih hsim₁ hrest
      rcases heffect with rfl | ⟨e, heffect⟩
      · exact ⟨turns, a', hturns, hsim'⟩
      · have hfirst := Machine.run_cons_eq_some.mpr ⟨a₁, heffect, hturns⟩
        exact ⟨(ev.thread, e) :: turns, a', hfirst, hsim'⟩

omit [DecidableEq K] in
/-- No thread has begun anything. -/
theorem simulates_start (m : Memory Cell) (prog : K → Program Txn Res B) :
    Simulates code ⟨m, fun _ => none, fun k => .outside (prog k)⟩ ⟨m, prog⟩ := by
  refine ⟨fun l _ => rfl, fun k => ⟨∅, fun l => ?_, .outside rfl rfl rfl⟩⟩
  simp

/-! ## No deadlock -/

/-- A thread that keeps to the rules goes on, unless it has failed or wants a lock that
another one has, above all those it has itself. -/
theorem Simulates.step_or_waits (hsim : Simulates code s a) {e : Env} {t : Txn}
    {rest : Code Cell (Res t)} {next : Res t → Program Txn Res B}
    (hstatus : s.status k = .inside e t rest next) :
    (s.status k).failed = true ∨ (∃ s', s.step code (.go k) = some s') ∨
      ∃ l j, s.owner l = some j ∧ ∀ l', s.owner l' = some k → l' < l := by
  obtain ⟨held, hheld, hstanding⟩ := hsim.standing k
  obtain ⟨growing, hrest⟩ := hstanding.disciplined hstatus
  -- an operation that is possible is a step
  have hgoes {op : Op Cell} {after : op.Result → Code Cell (Res t)} (hop : rest = .call op after)
      {out : op.Result × Threads Cell K Txn Res Env B} (hperform : s.perform k op = some out) :
      ∃ s', s.step code (.go k) = some s' := by
    subst hop
    refine ⟨out.2.become k (.inside e t (after out.1) next), ?_⟩
    simp only [Threads.step, hstatus, hperform, Option.map_some]
  cases hrest' : rest with
  | done out =>
      subst hrest'
      refine Or.inr (Or.inl ⟨s.become k (.outside (next out)), ?_⟩)
      simp only [Threads.step, hstatus]
  | call op after =>
      rw [hrest'] at hrest
      cases op with
      | fail =>
          refine Or.inl ?_
          rw [hstatus, hrest']
          rfl
      | read l => exact Or.inr (Or.inl (hgoes hrest' rfl))
      | write l v => exact Or.inr (Or.inl (hgoes hrest' rfl))
      | release l =>
          exact Or.inr (Or.inl (hgoes hrest' (if_pos ((hheld l).mp hrest.1))))
      | acquire l =>
          cases howner : s.owner l with
          | none => exact Or.inr (Or.inl (hgoes hrest' (if_pos howner)))
          | some j =>
              exact Or.inr (Or.inr ⟨l, j, howner, fun l' hl' => hrest.2.1 l' ((hheld l').mpr hl')⟩)

/-- If a thread is inside a transaction and none has failed, some thread can go on: follow
the threads from the lock one of them wants to the one that has it; the locks ascend. -/
theorem Simulates.exists_step [WellFoundedGT L] (hsim : Simulates code s a)
    (hok : ∀ k, (s.status k).failed = false) (hbusy : (s.status k).busy = true) :
    ∃ j s', s.step code (.go j) = some s' := by
  -- a thread that has not failed
  have hnot (j : K) : (s.status j).failed ≠ true := by
    rw [hok j]
    exact Bool.false_ne_true
  have hchain : ∀ (l : L) (j : K), s.owner l = some j → ∃ j s', s.step code (.go j) = some s' := by
    intro l
    induction l using WellFoundedGT.induction with
    | ind l ih =>
        intro j hj
        obtain ⟨held, hheld, hstanding⟩ := hsim.standing j
        have hinside : ∃ e t rest next, s.status j = .inside e t rest next := by
          cases hstanding with
          | outside _ _ hnone =>
              have hl : l ∈ held := (hheld l).mpr hj
              rw [hnone] at hl
              exact absurd hl (Finset.notMem_empty l)
          | growing hstatus => exact ⟨_, _, _, _, hstatus⟩
          | shrinking hstatus => exact ⟨_, _, _, _, hstatus⟩
        obtain ⟨e, t, rest, next, hstatus⟩ := hinside
        rcases hsim.step_or_waits hstatus with hfailed | ⟨s', hstep⟩ | ⟨l', j', hj', habove⟩
        · exact absurd hfailed (hnot j)
        · exact ⟨j, s', hstep⟩
        · exact ih l' (habove l hj) j' hj'
  cases hstatus : s.status k with
  | outside prog =>
      rw [hstatus] at hbusy
      cases hbusy
  | inside e t rest next =>
      rcases hsim.step_or_waits hstatus with hfailed | ⟨s', hstep⟩ | ⟨l, j, hj, -⟩
      · exact absurd hfailed (hnot k)
      · exact ⟨k, s', hstep⟩
      · exact hchain l j hj

end Simulation

end Locking
