import Mathlib

/-! # Programs of calls

A program performs calls one after the other and may decide how to go on from
what they answer. Its text is a tree with one branch for every answer, so a
property of all its calls covers every behaviour of the party that answers them,
and of anything else that happens between two calls.
-/

inductive Program (Call : Type) (Result : Call → Type) (A : Type) where
  | done (a : A)
  | call (c : Call) (next : Result c → Program Call Result A)

namespace Program

variable {Call : Type} {Result : Call → Type} {A B : Type}

def bind : Program Call Result A → (A → Program Call Result B) → Program Call Result B
  | done a, f => f a
  | call c next, f => call c fun r => (next r).bind f

instance : Monad (Program Call Result) where
  pure := done
  bind := bind

theorem bind_done (prog : Program Call Result A) : prog.bind done = prog := by
  induction prog with
  | done a => rfl
  | call c next ih => exact congrArg (call c) (funext ih)

/-- Sequencing is associative. -/
theorem bind_bind {C : Type} (prog : Program Call Result A) (f : A → Program Call Result B)
    (g : B → Program Call Result C) : (prog.bind f).bind g = prog.bind fun a => (f a).bind g := by
  induction prog with
  | done a => rfl
  | call c next ih => exact congrArg (call c) (funext ih)

instance : LawfulMonad (Program Call Result) :=
  LawfulMonad.mk' _ bind_done (fun _ _ => rfl) bind_bind

def perform (c : Call) : Program Call Result (Result c) := call c done

/-- Every call the program can make is allowed and every value it can return has
the property, whatever the calls answer. -/
def Meets (allowed : Call → Prop) (post : A → Prop) : Program Call Result A → Prop
  | done a => post a
  | call c next => allowed c ∧ ∀ r, (next r).Meets allowed post

/-- What remains of the program has the property at every point, whatever the
calls have answered. -/
def Throughout (P : Program Call Result A → Prop) : Program Call Result A → Prop
  | done a => P (done a)
  | call c next => P (call c next) ∧ ∀ r, (next r).Throughout P

variable {allowed : Call → Prop} {post : A → Prop}

/-- The rule for sequencing: what the first part returns is all the second may assume. -/
theorem Meets.bind {prog : Program Call Result A} {next : A → Program Call Result B}
    {post' : B → Prop} (hprog : prog.Meets allowed post)
    (hnext : ∀ a, post a → (next a).Meets allowed post') :
    (prog >>= next).Meets allowed post' := by
  induction prog with
  | done a => exact hnext a hprog
  | call c rest ih => exact ⟨hprog.1, fun r => ih r (hprog.2 r)⟩

/-- The rule of consequence. -/
theorem Meets.mono {prog : Program Call Result A} {allowed' : Call → Prop} {post' : A → Prop}
    (hprog : prog.Meets allowed post) (hallowed : ∀ c, allowed c → allowed' c)
    (hpost : ∀ a, post a → post' a) : prog.Meets allowed' post' := by
  induction prog with
  | done a => exact hpost a hprog
  | call c rest ih => exact ⟨hallowed c hprog.1, fun r => ih r (hprog.2 r)⟩

theorem meets_ite {c : Prop} [Decidable c] {prog prog' : Program Call Result A}
    (hprog : prog.Meets allowed post) (hprog' : prog'.Meets allowed post) :
    (if c then prog else prog').Meets allowed post := by
  split
  · exact hprog
  · exact hprog'

theorem Throughout.now {P : Program Call Result A → Prop} {prog : Program Call Result A}
    (hprog : prog.Throughout P) : P prog := by
  cases prog with
  | done a => exact hprog
  | call c next => exact hprog.1

/-- A property that depends on the next call only. -/
theorem Meets.throughout {P : Program Call Result A → Prop} {prog : Program Call Result A}
    (hprog : prog.Meets allowed post) (hcall : ∀ c next, allowed c → P (call c next))
    (hdone : ∀ a, post a → P (done a)) : prog.Throughout P := by
  induction prog with
  | done a => exact hdone a hprog
  | call c next ih => exact ⟨hcall c next hprog.1, fun r => ih r (hprog.2 r)⟩

/-! ## Running a program alone -/

section Exec

variable {S : Type} (answer : S → (c : Call) → Option (Result c × S))

/-- Nothing happens between two calls; each is answered from the state and changes it. -/
def exec : Program Call Result A → S → Option (A × S)
  | done a, s => some (a, s)
  | call c next, s => (answer s c).bind fun out => (next out.1).exec out.2

theorem exec_perform (c : Call) (s : S) : (perform c).exec answer s = answer s c := by
  rw [perform, exec]
  exact Option.bind_fun_some (answer s c)

/-- Executing a sequence threads the state through both parts; a failure of the first is
final. -/
theorem exec_bind (prog : Program Call Result A) (next : A → Program Call Result B) (s : S) :
    (prog >>= next).exec answer s =
      (prog.exec answer s).bind fun out => (next out.1).exec answer out.2 := by
  induction prog generalizing s with
  | done a => rfl
  | call c rest ih =>
      have hcall : (call c rest >>= next).exec answer s =
          (answer s c).bind fun out => (rest out.1 >>= next).exec answer out.2 := rfl
      rw [hcall, exec, Option.bind_assoc]
      congr 1
      funext out
      exact ih out.1 out.2

end Exec

/-! ## Relying on the answers -/

/-- Every call the program can make is allowed and every value it can return has
the property, as long as the answers it gets are good. -/
def Relies (good : (c : Call) → Result c → Prop) (allowed : Call → Prop) (post : A → Prop) :
    Program Call Result A → Prop
  | done a => post a
  | call c next => allowed c ∧ ∀ r, good c r → (next r).Relies good allowed post

theorem Relies.bind {good : (c : Call) → Result c → Prop} {prog : Program Call Result A}
    {next : A → Program Call Result B} {post' : B → Prop} (hprog : prog.Relies good allowed post)
    (hnext : ∀ a, post a → (next a).Relies good allowed post') :
    (prog >>= next).Relies good allowed post' := by
  induction prog with
  | done a => exact hnext a hprog
  | call c rest ih => exact ⟨hprog.1, fun r hr => ih r (hprog.2 r hr)⟩

/-- One call and what follows it. -/
theorem relies_perform_bind {good : (c : Call) → Result c → Prop} {c : Call}
    {next : Result c → Program Call Result B} {post' : B → Prop} (hcall : allowed c)
    (hnext : ∀ r, good c r → (next r).Relies good allowed post') :
    (perform c >>= next).Relies good allowed post' :=
  ⟨hcall, hnext⟩

/-! ## Carrying out calls by programs -/

/-- The program with each of its calls carried out by a program of other calls. -/
def expand {Call' : Type} {Result' : Call' → Type}
    (f : (c : Call) → Program Call' Result' (Result c)) :
    Program Call Result A → Program Call' Result' A
  | done a => done a
  | call c next => (f c).bind fun r => (next r).expand f

/-- Carrying calls out by programs and executing them is the same as answering each call
by the execution of its program. -/
theorem exec_expand {Call' : Type} {Result' : Call' → Type} {S : Type}
    (answer : S → (c : Call') → Option (Result' c × S))
    (f : (c : Call) → Program Call' Result' (Result c)) (prog : Program Call Result A) (s : S) :
    (prog.expand f).exec answer s = prog.exec (fun s c => (f c).exec answer s) s := by
  induction prog generalizing s with
  | done a => rfl
  | call c next ih =>
      have hcall : ((call c next).expand f).exec answer s =
          ((f c).exec answer s).bind fun out => ((next out.1).expand f).exec answer out.2 :=
        exec_bind answer (f c) (fun r => (next r).expand f) s
      rw [hcall, exec]
      congr 1
      funext out
      exact ih out.1 out.2

/-- A bound on the calls of the outer program and a bound for each call's own program give
one for the whole. -/
theorem Meets.expand {Call' : Type} {Result' : Call' → Type}
    {f : (c : Call) → Program Call' Result' (Result c)} {good : (c : Call') → Result' c → Prop}
    {allowed' : Call' → Prop} {prog : Program Call Result A} (hprog : prog.Meets allowed post)
    (hcall : ∀ c, allowed c → (f c).Relies good allowed' fun _ => True) :
    (prog.expand f).Relies good allowed' post := by
  induction prog with
  | done a => exact hprog
  | call c next ih => exact (hcall c hprog.1).bind fun r _ => ih r (hprog.2 r)

/-- Whatever the calls are, the programs that carry them out make allowed calls. -/
theorem meets_expand {Call' : Type} {Result' : Call' → Type}
    {f : (c : Call) → Program Call' Result' (Result c)} {allowed' : Call' → Prop}
    (hcall : ∀ c, (f c).Meets allowed' fun _ => True) (prog : Program Call Result A) :
    (prog.expand f).Meets allowed' fun _ => True := by
  induction prog with
  | done a => trivial
  | call c next ih => exact (hcall c).bind fun r _ => ih r

/-! ## Calls in a row -/

def each : List Call → Program Call Result Unit
  | [] => done ()
  | c :: rest => call c fun _ => each rest

theorem each_append (calls calls' : List Call) :
    (each (calls ++ calls') : Program Call Result Unit) = each calls >>= fun _ => each calls' := by
  induction calls with
  | nil => rfl
  | cons c rest ih =>
      rw [List.cons_append, each, ih]
      rfl

/-! ## Progress -/

/-- The first program, having performed these calls with these answers, goes on as the
second. -/
inductive Leads : Program Call Result A → List ((c : Call) × Result c) → Program Call Result A →
    Prop where
  | refl (prog : Program Call Result A) : Leads prog [] prog
  | step {c : Call} {next : Result c → Program Call Result A} (r : Result c)
      {made : List ((c : Call) × Result c)} {rest : Program Call Result A}
      (hrest : Leads (next r) made rest) : Leads (.call c next) (⟨c, r⟩ :: made) rest

/-- One more call. -/
theorem Leads.concat {prog : Program Call Result A} {made : List ((c : Call) × Result c)} {c : Call}
    {next : Result c → Program Call Result A} (hleads : Leads prog made (.call c next))
    (r : Result c) : Leads prog (made ++ [⟨c, r⟩]) (next r) := by
  generalize hrest : Program.call c next = rest at hleads
  induction hleads with
  | refl prog =>
      subst hrest
      exact .step r (.refl _)
  | step r' _ ih => exact .step r' (ih hrest)

/-! ## Progress through the parts of a program -/

section Parts

variable {made : List ((c : Call) × Result c)}

/-- Calls already made were allowed. -/
theorem Leads.forall_allowed {prog rest : Program Call Result A} (hleads : Leads prog made rest)
    (hprog : prog.Meets allowed post) : ∀ e ∈ made, allowed e.1 := by
  induction hleads with
  | refl prog => exact List.forall_mem_nil _
  | step r _ ih => exact List.forall_mem_cons.mpr ⟨hprog.1, ih (hprog.2 r)⟩

/-- What follows has not begun, or what comes first is finished. -/
theorem Leads.of_bind {prog : Program Call Result A} {next : A → Program Call Result B}
    {rest : Program Call Result B} (hleads : Leads (prog >>= next) made rest) :
    (∃ rest', Leads prog made rest' ∧ rest = (rest' >>= next)) ∨
      ∃ a front back, made = front ++ back ∧ Leads prog front (.done a) ∧
        Leads (next a) back rest := by
  induction prog generalizing made with
  | done a => exact Or.inr ⟨a, [], made, rfl, .refl _, hleads⟩
  | call c following ih =>
      cases hleads with
      | refl => exact Or.inl ⟨.call c following, .refl _, rfl⟩
      | step r hrest =>
          rcases ih r hrest with ⟨rest', hfirst, rfl⟩ | ⟨a, front, back, rfl, hfirst, hlast⟩
          · exact Or.inl ⟨rest', .step r hfirst, rfl⟩
          · exact Or.inr ⟨a, ⟨c, r⟩ :: front, back, rfl, .step r hfirst, hlast⟩

/-- A program that is finished is finished with its parts. -/
theorem Leads.of_bind_done {prog : Program Call Result A} {next : A → Program Call Result B} {b : B}
    (hleads : Leads (prog >>= next) made (.done b)) :
    ∃ a front back, made = front ++ back ∧ Leads prog front (.done a) ∧
      Leads (next a) back (.done b) := by
  rcases hleads.of_bind with ⟨rest, hfirst, hdone⟩ | hparts
  · cases rest with
    | done a => exact ⟨a, made, [], (List.append_nil made).symm, hfirst, hdone ▸ .refl _⟩
    | call c following => cases hdone
  · exact hparts

/-- One call and what follows it. -/
theorem Leads.of_perform_bind {c : Call} {next : Result c → Program Call Result B} {b : B}
    (hleads : Leads (perform c >>= next) made (.done b)) :
    ∃ r back, made = ⟨c, r⟩ :: back ∧ Leads (next r) back (.done b) := by
  cases hleads with
  | step r hrest => exact ⟨r, _, rfl, hrest⟩

theorem expand_bind {Call' : Type} {Result' : Call' → Type}
    (f : (c : Call) → Program Call' Result' (Result c)) (prog : Program Call Result A)
    (next : A → Program Call Result B) :
    (prog >>= next).expand f = prog.expand f >>= fun a => (next a).expand f := by
  induction prog with
  | done a => rfl
  | call c following ih =>
      refine Eq.trans ?_ (bind_bind (f c) _ _).symm
      exact congrArg (f c).bind (funext ih)

section Each

variable {Call' : Type} {Result' : Call' → Type} {f : (c : Call) → Program Call' Result' (Result c)}
  {calls : List Call}

theorem meets_expand_each {allowed' : Call' → Prop}
    (hcalls : ∀ c ∈ calls, (f c).Meets allowed' fun _ => True) :
    ((each calls).expand f).Meets allowed' fun _ => True := by
  induction calls with
  | nil => trivial
  | cons c rest ih =>
      rw [List.forall_mem_cons] at hcalls
      exact hcalls.1.bind fun _ _ => ih hcalls.2

/-- Each call of a finished row was carried out to its end. -/
theorem Leads.of_expand_each {made : List ((c : Call') × Result' c)}
    (hleads : Leads ((each calls).expand f) made (.done ())) {c : Call} (hc : c ∈ calls) :
    ∃ r front mine back, made = front ++ mine ++ back ∧ Leads (f c) mine (.done r) := by
  induction calls generalizing made with
  | nil => cases hc
  | cons first rest ih =>
      obtain ⟨r, mine, later, rfl, hfirst, hrest⟩ := Leads.of_bind_done hleads
      rcases List.mem_cons.mp hc with rfl | hlater
      · exact ⟨r, [], mine, later, rfl, hfirst⟩
      · obtain ⟨r', front, mine', back, rfl, hmine⟩ := ih hrest hlater
        refine ⟨r', mine ++ front, mine', back, ?_, hmine⟩
        simp only [List.append_assoc]

end Each

end Parts

end Program
