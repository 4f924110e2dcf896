import Mathlib

/-! # Handing items over exactly once

A sender keeps numbered items in a queue until the receiver has confirmed them twice.
The items travel under identifiers that are given out again later, over a line that is
first in, first out while a connection lasts and loses everything when it ends. Replies
of an earlier connection may come late and in any order, and the sender may give an item
up. The receiver remembers identifiers only, and passes an item on when its identifier is
not among them.

If every identifier is at rest when it is given out, the receiver passes on each item at
most once, in the order of the numbers, and an item that is confirmed was passed on.
-/

namespace Exchange

variable {ι : Type}

/-- An unfinished item; it is released once the receiver has confirmed it. -/
structure Item (ι : Type) where
  number : Nat
  id : ι
  released : Bool
deriving DecidableEq

inductive Frame (ι : Type) where
  | data (number : Nat) (id : ι)
  | release (id : ι)
deriving DecidableEq

inductive Reply (ι : Type) where
  | received (id : ι)
  | complete (id : ι)
deriving DecidableEq

def Item.frame (x : Item ι) : Frame ι :=
  if x.released then .release x.id else .data x.number x.id

@[ext]
structure State (ι : Type) where
  queue : List (Item ι)
  /-- Frames that the receiver has not read. -/
  line : List (Frame ι)
  /-- Replies on the present connection that the sender has not handled. -/
  replies : List (Reply ι)
  /-- Replies on earlier connections that may still be handled. -/
  late : List (Reply ι)
  /-- Identifiers that the receiver remembers. -/
  held : Finset ι
  /-- Numbers of the items that the receiver has passed on, in order. -/
  log : List Nat
  /-- Numbers of all items so far, and of those given up. -/
  offered : List Nat
  dropped : List Nat
  online : Bool

namespace State

/-- What a new connection starts with. -/
def outbox (s : State ι) : List (Frame ι) := s.queue.map Item.frame

def put (s : State ι) (frames : List (Frame ι)) : State ι :=
  { s with line := if s.online then s.line ++ frames else s.line }

theorem line_put_of_online {s : State ι} (honline : s.online = true) (frames : List (Frame ι)) :
    (s.put frames).line = s.line ++ frames :=
  if_pos honline

/-- What is sent without a connection is lost; the queue still has the item. -/
theorem line_put_of_offline {s : State ι} (hoffline : s.online = false) (frames : List (Frame ι)) :
    (s.put frames).line = s.line :=
  if_neg (Bool.eq_false_iff.mp hoffline)

/-- Nothing refers to the identifier, up to releases and completions. -/
structure AtRest (s : State ι) (id : ι) : Prop where
  queue : ∀ x ∈ s.queue, x.id ≠ id
  line : ∀ n, Frame.data n id ∉ s.line
  replies : Reply.received id ∉ s.replies
  late : Reply.received id ∉ s.late
  held : id ∉ s.held

def start (online : Bool) : State ι :=
  { queue := [], line := [], replies := [], late := [], held := ∅, log := [], offered := []
    dropped := [], online := online }

section Steps

variable [DecidableEq ι]

/-- The receiver reads a frame. -/
def read (s : State ι) : Frame ι → State ι
  | .data n id =>
      if id ∈ s.held then { s with replies := s.replies ++ [.received id] }
      else { s with
        held := insert id s.held, log := s.log ++ [n], replies := s.replies ++ [.received id] }
  | .release id => { s with held := s.held.erase id, replies := s.replies ++ [.complete id] }

def release (s : State ι) (id : ι) : State ι :=
  { s with queue := s.queue.map fun x => if x.id = id then { x with released := true } else x }

def finish (s : State ι) (id : ι) : State ι :=
  { s with queue := s.queue.filter fun x => !(x.released && x.id = id) }

/-- Items that are not released are given up, but for those kept. -/
def dropAll (s : State ι) (keep : Item ι → Bool) : State ι :=
  { s with
    queue := s.queue.filter fun x => x.released || keep x
    dropped := s.dropped ++ (s.queue.filter fun x => !(x.released || keep x)).map Item.number }

/-- A reply is taken from those under way, or comes late. -/
inductive Took (s : State ι) (r : Reply ι) : State ι → Prop where
  | next (rest : List (Reply ι)) (first : s.replies = r :: rest) : Took s r { s with replies := rest }
  | late (before after : List (Reply ι)) (among : s.late = before ++ r :: after) :
      Took s r { s with late := before ++ after }

/-- The sender handles a reply. One for an identifier that no item waits with may be
answered, too. -/
inductive Answers (s : State ι) : Reply ι → State ι → Prop where
  | confirm (x : Item ι) (queued : x ∈ s.queue) (waits : x.released = false) :
      Answers s (.received x.id) ((s.release x.id).put [.release x.id])
  | unknown (id : ι) (none : ∀ x ∈ s.queue, x.id = id → x.released = true)
      (frames : List (Frame ι)) (only : ∀ f ∈ frames, f = .release id) :
      Answers s (.received id) (s.put frames)
  | complete (id : ι) : Answers s (.complete id) (s.finish id)

inductive Step (s : State ι) : State ι → Prop where
  | offer (n : Nat) (id : ι) (fresh : ∀ m ∈ s.offered, m < n) (rest : s.AtRest id) :
      Step s (put { s with
        queue := s.queue ++ [⟨n, id, false⟩], offered := s.offered ++ [n] } [.data n id])
  | resend (frames : List (Frame ι)) (queued : frames ⊆ s.outbox) : Step s (s.put frames)
  | drop (keep : Item ι → Bool) : Step s (s.dropAll keep)
  | read (f : Frame ι) (rest : List (Frame ι)) (first : s.line = f :: rest) :
      Step s (State.read { s with line := rest } f)
  | answer (r : Reply ι) (s₁ s₂ : State ι) (took : Took s r s₁) (answers : Answers s₁ r s₂) :
      Step s s₂
  | lose : Step s { s with online := false }
  | connect : Step s { s with
      line := s.outbox, late := s.late ++ s.replies, replies := [], online := true }

abbrev Reaches : State ι → State ι → Prop := Relation.ReflTransGen Step

end Steps

/-! ## The invariant -/

/-- A new connection repeats the data of the items that are not released. -/
theorem data_mem_outbox {s : State ι} {n : Nat} {id : ι} :
    Frame.data n id ∈ s.outbox ↔ ⟨n, id, false⟩ ∈ s.queue := by
  constructor
  · intro h
    obtain ⟨⟨m, j, released⟩, hx, hframe⟩ := List.mem_map.mp h
    cases released with
    | false => cases hframe; exact hx
    | true => cases hframe
  · exact fun h => List.mem_map.mpr ⟨_, h, rfl⟩

/-- Released items are repeated by their release only. -/
theorem release_mem_outbox {s : State ι} {id : ι} :
    Frame.release id ∈ s.outbox ↔ ∃ n, ⟨n, id, true⟩ ∈ s.queue := by
  constructor
  · intro h
    obtain ⟨⟨m, j, released⟩, hx, hframe⟩ := List.mem_map.mp h
    cases released with
    | false => cases hframe
    | true => cases hframe; exact ⟨m, hx⟩
  · exact fun ⟨n, h⟩ => List.mem_map.mpr ⟨_, h, rfl⟩

/-- The frames that the receiver may read, those on the line first and then what the
sender may send again, against what the receiver has passed on and remembers. -/
structure Lined (line outbox : List (Frame ι)) (held : Finset ι) (log offered : List Nat) :
    Prop where
  known : ∀ {n id}, .data n id ∈ line ++ outbox → n ∈ offered
  /-- Numbers and identifiers determine each other. -/
  oneId : ∀ {n id id'}, .data n id ∈ line ++ outbox → .data n id' ∈ line ++ outbox → id = id'
  oneNumber : ∀ {n n' id}, .data n id ∈ line ++ outbox → .data n' id ∈ line ++ outbox → n = n'
  /-- The receiver's memory is right about every frame that it may read. -/
  held : ∀ {n id}, .data n id ∈ line ++ outbox → (n ∈ log ↔ id ∈ held)
  newer : ∀ {n id}, .data n id ∈ line ++ outbox → n ∉ log → ∀ m ∈ log, m < n
  /-- A frame behind a release of its identifier is for a later item. -/
  releases : ∀ {before after id}, line = before ++ .release id :: after →
    ∀ {n}, .data n id ∈ after ++ outbox → n ∉ log ∧ .data n id ∉ before
  /-- The first frames of the items that are not passed on are in order. -/
  ordered : ∀ {before after n id}, line = before ++ .data n id :: after → n ∉ log →
    ∀ {m id'}, m < n → .data m id' ∈ after ++ outbox → m ∈ log ∨ .data m id' ∈ before

structure Inv (s : State ι) : Prop where
  ids : (s.queue.map Item.id).Nodup
  numbers : (s.queue.map Item.number).Pairwise (· < ·)
  released : ∀ x ∈ s.queue, x.released = true → x.number ∈ s.log
  offered : s.offered.Pairwise (· < ·)
  log : s.log.Pairwise (· < ·)
  logged : s.log ⊆ s.offered
  account : ∀ n ∈ s.offered, n ∈ s.log ∨ (∃ id, .data n id ∈ s.outbox) ∨ n ∈ s.dropped
  received : ∀ {n id}, .received id ∈ s.replies ++ s.late → .data n id ∈ s.outbox → n ∈ s.log
  sent : s.online = true → ∀ {n id}, .data n id ∈ s.outbox → n ∈ s.log ∨ .data n id ∈ s.line
  lined : Lined s.line s.outbox s.held s.log s.offered

/-- The invariant holds before anything is offered, with or without a connection. -/
theorem inv_start (online : Bool) : (start online : State ι).Inv := by
  refine ⟨?_, ?_, ?_, ?_, ?_, ?_, ?_, ?_, ?_, ?_, ?_, ?_, ?_, ?_, ?_, ?_⟩ <;> simp [start, outbox]

variable {s : State ι}

/-- No two queued items share an identifier. -/
theorem Inv.eq_of_id (hs : s.Inv) {x y : Item ι} (hx : x ∈ s.queue) (hy : y ∈ s.queue)
    (hid : x.id = y.id) : x = y :=
  List.inj_on_of_nodup_map hs.ids hx hy hid

/-! ## The line -/

section Lined

variable {line outbox : List (Frame ι)} {held : Finset ι} {log offered : List Nat}

/-- An element of two lists put together lies in the first or in the second. -/
theorem split_append {α : Type} {as bs before after : List α} {x : α}
    (h : as ++ bs = before ++ x :: after) :
    (∃ rest, as = before ++ x :: rest ∧ after = rest ++ bs) ∨
      ∃ more, before = as ++ more ∧ bs = more ++ x :: after := by
  rcases List.append_eq_append_iff.mp h with ⟨more, hbefore, hbs⟩ | ⟨rest, has, hrest⟩
  · exact Or.inr ⟨more, hbefore, hbs⟩
  · cases rest with
    | nil => exact Or.inr ⟨[], by simpa using has.symm, hrest.symm⟩
    | cons y rest =>
        obtain ⟨rfl, rfl⟩ := List.cons.inj hrest
        exact Or.inl ⟨rest, has, rfl⟩

/-- The sender may forget items. -/
theorem Lined.shrink (h : Lined line outbox held log offered) {outbox' : List (Frame ι)}
    (hsub : ∀ {n id}, .data n id ∈ outbox' → .data n id ∈ outbox) :
    Lined line outbox' held log offered := by
  have hmore : ∀ {n id} {rest : List (Frame ι)}, .data n id ∈ rest ++ outbox' →
      .data n id ∈ rest ++ outbox := by
    intro n id rest hf
    exact List.mem_append.mpr ((List.mem_append.mp hf).imp_right hsub)
  exact ⟨fun hf => h.known (hmore hf), fun hf hf' => h.oneId (hmore hf) (hmore hf'),
    fun hf hf' => h.oneNumber (hmore hf) (hmore hf'), fun hf => h.held (hmore hf),
    fun hf => h.newer (hmore hf), fun hline _ hf => h.releases hline (hmore hf),
    fun hline hn _ _ hlt hf => h.ordered hline hn hlt (hmore hf)⟩

/-- Frames may be sent again, if no item is at the same time released and not. -/
theorem Lined.resend (h : Lined line outbox held log offered) {frames : List (Frame ι)}
    (hframes : frames ⊆ outbox)
    (hclash : ∀ {n id}, .data n id ∈ outbox → .release id ∉ outbox)
    (hsent : ∀ {n id m id'}, .data n id ∈ frames → m < n → .data m id' ∈ outbox →
      m ∈ log ∨ .data m id' ∈ line) :
    Lined (line ++ frames) outbox held log offered := by
  have hmore : ∀ {f} {rest : List (Frame ι)}, f ∈ rest ++ frames ++ outbox → f ∈ rest ++ outbox := by
    intro f rest hf
    simp only [List.mem_append] at hf ⊢
    rcases hf with (hf | hf) | hf
    · exact Or.inl hf
    · exact Or.inr (hframes hf)
    · exact Or.inr hf
  refine ⟨fun hf => h.known (hmore hf), fun hf hf' => h.oneId (hmore hf) (hmore hf'),
    fun hf hf' => h.oneNumber (hmore hf) (hmore hf'), fun hf => h.held (hmore hf),
    fun hf => h.newer (hmore hf), ?_, ?_⟩
  · intro before after id hline n hf
    rcases split_append hline with ⟨rest, hold, rfl⟩ | ⟨more, rfl, rfl⟩
    · exact h.releases hold (hmore hf)
    · -- the release is among the frames sent again, so no item waits with its identifier
      have hrelease : Frame.release id ∈ outbox := hframes (by simp)
      refine absurd hrelease (hclash (n := n) ?_)
      rcases List.mem_append.mp hf with hf | hf
      · exact hframes (by simp [hf])
      · exact hf
  · intro before after n id hline hn m id' hlt hf
    rcases split_append hline with ⟨rest, hold, rfl⟩ | ⟨more, rfl, rfl⟩
    · exact h.ordered hold hn hlt (hmore hf)
    · have hout : Frame.data m id' ∈ outbox := by
        rcases List.mem_append.mp hf with hf | hf
        · exact hframes (by simp [hf])
        · exact hf
      have hframe : Frame.data n id ∈ more ++ .data n id :: after := by simp
      exact (hsent hframe hlt hout).imp_right (List.mem_append_left _)

/-- A release may be sent when no item waits with its identifier. -/
theorem Lined.release (h : Lined line outbox held log offered) {frames : List (Frame ι)} {id : ι}
    (honly : ∀ f ∈ frames, f = .release id) (hnone : ∀ {n}, .data n id ∉ outbox) :
    Lined (line ++ frames) outbox held log offered := by
  have hmore : ∀ {n id'} {rest : List (Frame ι)}, .data n id' ∈ rest ++ frames ++ outbox →
      .data n id' ∈ rest ++ outbox := by
    intro n id' rest hf
    simp only [List.mem_append] at hf ⊢
    rcases hf with (hf | hf) | hf
    · exact Or.inl hf
    · cases honly _ hf
    · exact Or.inr hf
  refine ⟨fun hf => h.known (hmore hf), fun hf hf' => h.oneId (hmore hf) (hmore hf'),
    fun hf hf' => h.oneNumber (hmore hf) (hmore hf'), fun hf => h.held (hmore hf),
    fun hf => h.newer (hmore hf), ?_, ?_⟩
  · intro before after id' hline n hf
    rcases split_append hline with ⟨rest, hold, rfl⟩ | ⟨more, rfl, rfl⟩
    · exact h.releases hold (hmore hf)
    · cases honly (.release id') (by simp)
      rcases List.mem_append.mp hf with hf | hf
      · cases honly (.data n id) (by simp [hf])
      · exact absurd hf hnone
  · intro before after n id' hline hn m id'' hlt hf
    rcases split_append hline with ⟨rest, hold, rfl⟩ | ⟨more, rfl, rfl⟩
    · exact h.ordered hold hn hlt (hmore hf)
    · cases honly (.data n id') (by simp)

/-- A new item, with an identifier that no frame has, is behind all others. -/
theorem Lined.offer (h : Lined line outbox held log offered) {n : Nat} {id : ι}
    (hfresh : ∀ m ∈ offered, m < n) (hlogged : log ⊆ offered)
    (hnone : ∀ {m}, .data m id ∉ line ++ outbox) (hheld : id ∉ held) :
    Lined line (outbox ++ [.data n id]) held log (offered ++ [n]) := by
  have hnew : n ∉ offered := fun hmem => lt_irrefl _ (hfresh n hmem)
  have hcases : ∀ {m id'} {rest : List (Frame ι)}, .data m id' ∈ rest ++ (outbox ++ [.data n id]) →
      .data m id' ∈ rest ++ outbox ∨ m = n ∧ id' = id := by
    intro m id' rest hf
    simp only [List.mem_append, List.mem_singleton, Frame.data.injEq] at hf ⊢
    rw [or_assoc]
    exact hf
  have hdifferent : ∀ {id'}, .data n id' ∉ line ++ outbox := fun hf => hnew (h.known hf)
  refine ⟨?_, ?_, ?_, ?_, ?_, ?_, ?_⟩
  · intro m id' hf
    rcases hcases hf with hf | ⟨rfl, rfl⟩
    · exact List.mem_append_left _ (h.known hf)
    · simp
  · intro m id' id'' hf hf'
    rcases hcases hf with hold | ⟨rfl, rfl⟩ <;> rcases hcases hf' with hold' | ⟨heq, rfl⟩
    · exact h.oneId hold hold'
    · exact absurd (heq ▸ hold) hdifferent
    · exact absurd hold' hdifferent
    · rfl
  · intro m m' id' hf hf'
    rcases hcases hf with hold | ⟨rfl, rfl⟩ <;> rcases hcases hf' with hold' | ⟨rfl, heq⟩
    · exact h.oneNumber hold hold'
    · exact absurd (heq ▸ hold) hnone
    · exact absurd hold' hnone
    · rfl
  · intro m id' hf
    rcases hcases hf with hf | ⟨rfl, rfl⟩
    · exact h.held hf
    · exact iff_of_false (fun hmem => hnew (hlogged hmem)) hheld
  · intro m id' hf hm k hk
    rcases hcases hf with hf | ⟨rfl, rfl⟩
    · exact h.newer hf hm k hk
    · exact hfresh k (hlogged hk)
  · intro before after id' hline m hf
    rcases hcases hf with hf | ⟨rfl, rfl⟩
    · exact h.releases hline hf
    · refine ⟨fun hmem => hnew (hlogged hmem), fun hmem => hnone (m := m) ?_⟩
      exact List.mem_append_left _ (hline ▸ List.mem_append_left _ hmem)
  · intro before after m id' hline hm k id'' hlt hf
    rcases hcases hf with hf | ⟨rfl, rfl⟩
    · exact h.ordered hline hm hlt hf
    · have hmem : Frame.data m id' ∈ line ++ outbox := by simp [hline]
      exact absurd (hfresh m (h.known hmem)) (Nat.lt_asymm hlt)

/-- A frame of an item that was passed on changes nothing. -/
theorem Lined.read_again {n : Nat} {id : ι} (h : Lined (.data n id :: line) outbox held log offered)
    (hn : n ∈ log) : Lined line outbox held log offered := by
  have hmore : ∀ {f}, f ∈ line ++ outbox → f ∈ Frame.data n id :: line ++ outbox :=
    fun hf => List.mem_cons_of_mem _ hf
  refine ⟨fun hf => h.known (hmore hf), fun hf hf' => h.oneId (hmore hf) (hmore hf'),
    fun hf hf' => h.oneNumber (hmore hf) (hmore hf'), fun hf => h.held (hmore hf),
    fun hf => h.newer (hmore hf), ?_, ?_⟩
  · intro before after id' hline m hf
    have hcons : Frame.data n id :: line = (.data n id :: before) ++ .release id' :: after := by
      rw [hline, List.cons_append]
    exact (h.releases hcons hf).imp_right fun hnot hmem => hnot (List.mem_cons_of_mem _ hmem)
  · intro before after m id' hline hm k id'' hlt hf
    have hcons : Frame.data n id :: line = (.data n id :: before) ++ .data m id' :: after := by
      rw [hline, List.cons_append]
    rcases h.ordered hcons hm hlt hf with hk | hmem
    · exact Or.inl hk
    · rcases List.mem_cons.mp hmem with heq | hmem
      · cases heq
        exact Or.inl hn
      · exact Or.inr hmem

section Reading

variable [DecidableEq ι]

/-- Reading a release forgets the identifier, after which the line is in order for the
others. -/
theorem Lined.read_release {id : ι} (h : Lined (.release id :: line) outbox held log offered) :
    Lined line outbox (held.erase id) log offered := by
  have hmore : ∀ {f}, f ∈ line ++ outbox → f ∈ Frame.release id :: line ++ outbox :=
    fun hf => List.mem_cons_of_mem _ hf
  refine ⟨fun hf => h.known (hmore hf), fun hf hf' => h.oneId (hmore hf) (hmore hf'),
    fun hf hf' => h.oneNumber (hmore hf) (hmore hf'), ?_, fun hf => h.newer (hmore hf), ?_, ?_⟩
  · intro n id' hf
    by_cases hid : id' = id
    · -- the frames behind the release are for an item that is not passed on
      subst hid
      have hn : n ∉ log := (h.releases (List.nil_append _).symm hf).1
      simp [hn]
    · rw [h.held (hmore hf)]
      simp [hid]
  · intro before after id' hline m hf
    have hcons : Frame.release id :: line = (.release id :: before) ++ .release id' :: after := by
      rw [hline, List.cons_append]
    exact (h.releases hcons hf).imp_right fun hnot hmem => hnot (List.mem_cons_of_mem _ hmem)
  · intro before after m id' hline hm k id'' hlt hf
    have hcons : Frame.release id :: line = (.release id :: before) ++ .data m id' :: after := by
      rw [hline, List.cons_append]
    refine (h.ordered hcons hm hlt hf).imp_right fun hmem => ?_
    rcases List.mem_cons.mp hmem with heq | hmem
    · cases heq
    · exact hmem

/-- The item that is passed on is the first of those that are not. -/
theorem Lined.read_new {n : Nat} {id : ι} (h : Lined (.data n id :: line) outbox held log offered)
    (hn : n ∉ log) : Lined line outbox (insert id held) (log ++ [n]) offered := by
  have hmore : ∀ {f}, f ∈ line ++ outbox → f ∈ Frame.data n id :: line ++ outbox :=
    fun hf => List.mem_cons_of_mem _ hf
  have hfirst : Frame.data n id ∈ Frame.data n id :: line ++ outbox := List.mem_cons_self
  have hlog : ∀ {m}, m ∉ log ++ [n] → m ∉ log ∧ m ≠ n := by
    intro m hm
    simpa using hm
  refine ⟨fun hf => h.known (hmore hf), fun hf hf' => h.oneId (hmore hf) (hmore hf'),
    fun hf hf' => h.oneNumber (hmore hf) (hmore hf'), ?_, ?_, ?_, ?_⟩
  · intro m id' hf
    have hsame : m = n ↔ id' = id := by
      constructor
      · rintro rfl
        exact h.oneId (hmore hf) hfirst
      · rintro rfl
        exact h.oneNumber (hmore hf) hfirst
    rw [List.mem_append, List.mem_singleton, Finset.mem_insert, h.held (hmore hf), hsame, or_comm]
  · intro m id' hf hm k hk
    obtain ⟨hold, hne⟩ := hlog hm
    rcases List.mem_append.mp hk with hk | hk
    · exact h.newer (hmore hf) hold k hk
    · rw [List.mem_singleton.mp hk]
      refine lt_of_le_of_ne (Nat.not_lt.mp fun hlt => ?_) (Ne.symm hne)
      rcases h.ordered (List.nil_append _).symm hn hlt hf with hmem | hmem
      · exact hold hmem
      · cases hmem
  · intro before after id' hline m hf
    have hcons : Frame.data n id :: line = (.data n id :: before) ++ .release id' :: after := by
      rw [hline, List.cons_append]
    obtain ⟨hm, hnot⟩ := h.releases hcons hf
    refine ⟨?_, fun hmem => hnot (List.mem_cons_of_mem _ hmem)⟩
    rw [List.mem_append, List.mem_singleton]
    rintro (hmem | rfl)
    · exact hm hmem
    · -- the frame just read would be in front of the release
      have hid : id' = id := h.oneId (hmore (by rw [hline]; simp at hf ⊢; tauto)) hfirst
      exact hnot (hid ▸ List.mem_cons_self)
  · intro before after m id' hline hm k id'' hlt hf
    have hcons : Frame.data n id :: line = (.data n id :: before) ++ .data m id' :: after := by
      rw [hline, List.cons_append]
    rcases h.ordered hcons (hlog hm).1 hlt hf with hk | hmem
    · exact Or.inl (List.mem_append_left _ hk)
    · rcases List.mem_cons.mp hmem with heq | hmem
      · cases heq
        exact Or.inl (by simp)
      · exact Or.inr hmem

end Reading

/-- On a new connection the queue is sent in order. -/
theorem Lined.restart (h : Lined line outbox held log offered)
    (hclash : ∀ {n id}, .data n id ∈ outbox → .release id ∉ outbox)
    (hsorted : outbox.Pairwise fun f g => ∀ n id m id', f = .data n id → g = .data m id' → n < m) :
    Lined outbox outbox held log offered := by
  have hmore : ∀ {f}, f ∈ outbox ++ outbox → f ∈ line ++ outbox := by
    intro f hf
    simp only [List.mem_append, or_self] at hf
    exact List.mem_append_right _ hf
  refine ⟨fun hf => h.known (hmore hf), fun hf hf' => h.oneId (hmore hf) (hmore hf'),
    fun hf hf' => h.oneNumber (hmore hf) (hmore hf'), fun hf => h.held (hmore hf),
    fun hf => h.newer (hmore hf), ?_, ?_⟩
  · intro before after id hline n hf
    have hdata : Frame.data n id ∈ outbox := by
      rcases List.mem_append.mp hf with hf | hf
      · rw [hline]
        simp [hf]
      · exact hf
    exact absurd (by rw [hline]; simp) (hclash hdata)
  · intro before after n id hline hn m id' hlt hf
    have hdata : Frame.data m id' ∈ outbox := by
      rcases List.mem_append.mp hf with hf | hf
      · rw [hline]
        simp [hf]
      · exact hf
    rw [hline] at hdata hsorted
    rw [List.pairwise_append, List.pairwise_cons] at hsorted
    rcases List.mem_append.mp hdata with hdata | hdata
    · exact Or.inr hdata
    · rcases List.mem_cons.mp hdata with heq | hdata
      · cases heq
        exact absurd hlt (lt_irrefl _)
      · exact absurd hlt (Nat.lt_asymm (hsorted.2.1.1 _ hdata n id m id' rfl rfl))

end Lined

/-! ## Every step keeps the invariant -/

/-- An identifier is either repeated as data or as a release, never as both. -/
theorem Inv.clash (hs : s.Inv) {n : Nat} {id : ι} (hdata : .data n id ∈ s.outbox) :
    .release id ∉ s.outbox := by
  intro hrelease
  obtain ⟨m, hm⟩ := release_mem_outbox.mp hrelease
  cases hs.eq_of_id (data_mem_outbox.mp hdata) hm rfl

/-- Sending keeps the invariant as soon as the longer line is in order; offline there is
no line. -/
theorem Inv.put (hs : s.Inv) {frames : List (Frame ι)}
    (hlined : s.online = true → Lined (s.line ++ frames) s.outbox s.held s.log s.offered) :
    (s.put frames).Inv := by
  unfold State.put
  split
  next honline =>
    exact { hs with
      sent := fun _ _ _ hdata => (hs.sent honline hdata).imp_right (List.mem_append_left _)
      lined := hlined honline }
  next => exact hs

/-- Items leave the queue, or are released. -/
theorem Inv.requeue (hs : s.Inv) {queue : List (Item ι)} {dropped : List Nat}
    (hids : (queue.map Item.id).Sublist (s.queue.map Item.id))
    (hnumbers : (queue.map Item.number).Sublist (s.queue.map Item.number))
    (hwaits : ∀ n id, ⟨n, id, false⟩ ∈ queue → ⟨n, id, false⟩ ∈ s.queue)
    (hreleased : ∀ x ∈ queue, x.released = true → x.number ∈ s.log)
    (hdropped : s.dropped ⊆ dropped)
    (haccount : ∀ n id, ⟨n, id, false⟩ ∈ s.queue →
      n ∈ s.log ∨ (∃ id, ⟨n, id, false⟩ ∈ queue) ∨ n ∈ dropped) :
    Inv { s with queue := queue, dropped := dropped } := by
  have hsub : ∀ {n id}, .data n id ∈ outbox { s with queue := queue, dropped := dropped } →
      .data n id ∈ s.outbox :=
    fun hdata => data_mem_outbox.mpr (hwaits _ _ (data_mem_outbox.mp hdata))
  refine {
    ids := hids.nodup hs.ids
    numbers := hs.numbers.sublist hnumbers
    released := hreleased
    offered := hs.offered
    log := hs.log
    logged := hs.logged
    account := ?_
    received := fun hreply hdata => hs.received hreply (hsub hdata)
    sent := fun honline _ _ hdata => hs.sent honline (hsub hdata)
    lined := hs.lined.shrink hsub }
  intro n hn
  rcases hs.account n hn with hlog | ⟨id, hdata⟩ | hdrop
  · exact Or.inl hlog
  · refine (haccount n id (data_mem_outbox.mp hdata)).imp_right (Or.imp_left ?_)
    exact fun ⟨id, hmem⟩ => ⟨id, data_mem_outbox.mpr hmem⟩
  · exact Or.inr (Or.inr (hdropped hdrop))

/-- Losing or delaying replies is harmless. -/
theorem Inv.fewer_replies (hs : s.Inv) {replies late : List (Reply ι)}
    (hsub : replies ++ late ⊆ s.replies ++ s.late) :
    Inv { s with replies := replies, late := late } :=
  { hs with received := fun hreply hdata => hs.received (hsub hreply) hdata }

/-- A new number under an identifier at rest is taken in. -/
theorem Inv.offer (hs : s.Inv) {n : Nat} {id : ι} (hfresh : ∀ m ∈ s.offered, m < n)
    (hrest : s.AtRest id) :
    (State.put { s with
      queue := s.queue ++ [⟨n, id, false⟩], offered := s.offered ++ [n] } [.data n id]).Inv := by
  have hnone : ∀ {m}, .data m id ∉ s.line ++ s.outbox := by
    intro m hmem
    rcases List.mem_append.mp hmem with hmem | hmem
    · exact hrest.line m hmem
    · exact hrest.queue _ (data_mem_outbox.mp hmem) rfl
  have hlined := hs.lined.offer hfresh hs.logged hnone hrest.held
  have hbefore : ∀ x ∈ s.queue, x.number < n := by
    intro x hx
    refine hfresh _ ?_
    cases hreleased : x.released with
    | true => exact hs.logged (hs.released x hx hreleased)
    | false =>
        have hdata : .data x.number x.id ∈ s.outbox := by
          rw [data_mem_outbox, ← hreleased]
          exact hx
        exact hs.lined.known (List.mem_append_right _ hdata)
  have houtbox : ∀ {m id'}, .data m id' ∈ s.outbox ++ [.data n id] →
      .data m id' ∈ s.outbox ∨ m = n ∧ id' = id := by
    intro m id' hdata
    simpa using hdata
  have hs' : Inv { s with
      queue := s.queue ++ [⟨n, id, false⟩], offered := s.offered ++ [n]
      line := if s.online then s.line ++ [.data n id] else s.line } := {
    ids := by
      rw [List.map_append, List.map_singleton, List.nodup_append_comm, List.singleton_append,
        List.nodup_cons]
      refine ⟨fun hmem => ?_, hs.ids⟩
      obtain ⟨x, hx, hid⟩ := List.mem_map.mp hmem
      exact hrest.queue x hx hid
    numbers := by
      rw [List.map_append, List.map_singleton, List.pairwise_append]
      refine ⟨hs.numbers, List.pairwise_singleton _ _, ?_⟩
      simpa using hbefore
    released := by
      intro x hx hreleased
      rcases List.mem_append.mp hx with hx | hx
      · exact hs.released x hx hreleased
      · rw [List.mem_singleton.mp hx] at hreleased
        cases hreleased
    offered := by
      rw [List.pairwise_append]
      refine ⟨hs.offered, List.pairwise_singleton _ _, ?_⟩
      simpa using hfresh
    log := hs.log
    logged := fun m hm => List.mem_append_left _ (hs.logged hm)
    account := by
      intro m hm
      simp only [outbox, List.map_append, List.mem_append]
      rcases List.mem_append.mp hm with hm | hm
      · refine (hs.account m hm).imp_right (Or.imp_left ?_)
        exact fun ⟨id', hdata⟩ => ⟨id', Or.inl hdata⟩
      · rw [List.mem_singleton.mp hm]
        exact Or.inr (Or.inl ⟨id, Or.inr (by simp [Item.frame])⟩)
    received := by
      intro m id' hreply hdata
      simp only [outbox, List.map_append] at hdata
      rcases houtbox hdata with hdata | ⟨rfl, rfl⟩
      · exact hs.received hreply hdata
      · rcases List.mem_append.mp hreply with hreply | hreply
        · exact absurd hreply hrest.replies
        · exact absurd hreply hrest.late
    sent := by
      intro honline m id' hdata
      simp only [outbox, List.map_append] at hdata
      change m ∈ s.log ∨ _ ∈ if s.online = true then s.line ++ [.data n id] else s.line
      rw [if_pos honline]
      rcases houtbox hdata with hdata | ⟨rfl, rfl⟩
      · exact (hs.sent honline hdata).imp_right (List.mem_append_left _)
      · exact Or.inr (by simp)
    lined := by
      simp only [outbox, List.map_append]
      split
      next honline =>
        refine hlined.resend (by simp) ?_ ?_
        · intro m id' hdata hrelease
          simp only [List.mem_append, List.mem_singleton, reduceCtorEq, or_false] at hrelease
          rcases houtbox hdata with hdata | ⟨-, rfl⟩
          · exact hs.clash hdata hrelease
          · obtain ⟨k, hk⟩ := release_mem_outbox.mp hrelease
            exact hrest.queue _ hk rfl
        · intro k id₁ m id' hk hlt hdata
          obtain ⟨rfl, rfl⟩ : k = n ∧ id₁ = id := by simpa using hk
          rcases houtbox hdata with hdata | ⟨rfl, -⟩
          · exact hs.sent honline hdata
          · exact absurd hlt (lt_irrefl _)
      next => exact hlined }
  exact hs'

/-- A new connection drops what was under way and repeats the queue in its order. -/
theorem Inv.connect (hs : s.Inv) :
    Inv { s with line := s.outbox, late := s.late ++ s.replies, replies := [], online := true } := by
  refine { hs with
    received := ?_
    sent := fun _ _ _ hdata => Or.inr hdata
    lined := hs.lined.restart hs.clash ?_ }
  · intro n id hreply hdata
    refine hs.received ?_ hdata
    simp only [List.nil_append, List.mem_append] at hreply ⊢
    exact hreply.symm
  · have hsorted := hs.numbers
    rw [List.pairwise_map] at hsorted
    refine List.pairwise_map.mpr (hsorted.imp_of_mem ?_)
    intro x y _ _ hlt n id m id' hx hy
    unfold Item.frame at hx hy
    split at hx <;> split at hy <;> cases hx <;> cases hy
    exact hlt

theorem Inv.dropAll (hs : s.Inv) (keep : Item ι → Bool) : (s.dropAll keep).Inv := by
  refine hs.requeue (List.filter_sublist.map _) (List.filter_sublist.map _) ?_ ?_
    (List.subset_append_left _ _) ?_
  · exact fun n id' hmem => List.mem_of_mem_filter hmem
  · exact fun x hx hreleased => hs.released x (List.mem_of_mem_filter hx) hreleased
  · intro n id hmem
    cases hkeep : keep ⟨n, id, false⟩ with
    | true => exact Or.inr (Or.inl ⟨id, List.mem_filter.mpr ⟨hmem, by simpa using hkeep⟩⟩)
    | false =>
        have hgone : ⟨n, id, false⟩ ∈ s.queue.filter fun x => !(x.released || keep x) :=
          List.mem_filter.mpr ⟨hmem, by simpa using hkeep⟩
        exact Or.inr (Or.inr (List.mem_append_right _ (List.mem_map_of_mem hgone)))

theorem Took.inv {s' : State ι} {r : Reply ι} (htook : s.Took r s') (hs : s.Inv) :
    s'.Inv ∧ ∀ id, r = .received id → ∀ {n}, .data n id ∈ s'.outbox → n ∈ s'.log := by
  cases htook with
  | next rest hfirst =>
      refine ⟨hs.fewer_replies fun x hx => ?_, ?_⟩
      · rw [hfirst]
        simp only [List.cons_append, List.mem_cons]
        exact Or.inr hx
      · rintro id rfl n hdata
        exact hs.received (by simp [hfirst]) hdata
  | late before after hamong =>
      refine ⟨hs.fewer_replies fun x hx => ?_, ?_⟩
      · rw [hamong]
        simp only [List.mem_append, List.mem_cons] at hx ⊢
        tauto
      · rintro id rfl n hdata
        exact hs.received (by simp [hamong]) hdata

section Exchanging

variable [DecidableEq ι]

/-- The receiver reads the first frame of the line. -/
theorem Inv.read (hs : s.Inv) {f : Frame ι} {rest : List (Frame ι)} (hline : s.line = f :: rest) :
    (State.read { s with line := rest } f).Inv := by
  have hlined := hs.lined
  rw [hline] at hlined
  cases f with
  | release id =>
      refine { hs with
        received := ?_
        sent := ?_
        lined := hlined.read_release }
      · intro n id' hreply hdata
        refine hs.received ?_ hdata
        simpa [State.read] using hreply
      · intro honline n id' hdata
        have hsent := hs.sent honline hdata
        rw [hline, List.mem_cons] at hsent
        rcases hsent with hn | heq | hmem
        · exact Or.inl hn
        · cases heq
        · exact Or.inr hmem
  | data n id =>
      have hmem : ∀ {f}, f ∈ rest ++ s.outbox → f ∈ Frame.data n id :: rest ++ s.outbox :=
        fun hf => List.mem_cons_of_mem _ hf
      have hfirst : Frame.data n id ∈ Frame.data n id :: rest ++ s.outbox := List.mem_cons_self
      -- a reply is for the item that was read, which is passed on by now
      have hreceived : ∀ {log : List Nat}, s.log ⊆ log → n ∈ log → ∀ {m id'},
          .received id' ∈ s.replies ++ [.received id] ++ s.late → .data m id' ∈ s.outbox →
            m ∈ log := by
        intro log hsub hn m id' hreply hdata
        simp only [List.mem_append, List.mem_singleton, Reply.received.injEq] at hreply
        rcases hreply with (hreply | rfl) | hreply
        · exact hsub (hs.received (List.mem_append_left _ hreply) hdata)
        · rwa [hlined.oneNumber (hmem (List.mem_append_right _ hdata)) hfirst]
        · exact hsub (hs.received (List.mem_append_right _ hreply) hdata)
      have hsent : ∀ {log : List Nat}, s.log ⊆ log → n ∈ log → s.online = true → ∀ {m id'},
          .data m id' ∈ s.outbox → m ∈ log ∨ .data m id' ∈ rest := by
        intro log hsub hn honline m id' hdata
        have hold := hs.sent honline hdata
        rw [hline, List.mem_cons] at hold
        rcases hold with hold | heq | hold
        · exact Or.inl (hsub hold)
        · cases heq
          exact Or.inl hn
        · exact Or.inr hold
      by_cases hheld : id ∈ s.held
      · rw [State.read, if_pos hheld]
        have hn : n ∈ s.log := (hlined.held hfirst).mpr hheld
        exact { hs with
          received := hreceived (List.Subset.refl _) hn
          sent := hsent (List.Subset.refl _) hn
          lined := hlined.read_again hn }
      · rw [State.read, if_neg hheld]
        have hn : n ∉ s.log := fun hn => hheld ((hlined.held hfirst).mp hn)
        have hsub : s.log ⊆ s.log ++ [n] := List.subset_append_left _ _
        have hlast : n ∈ s.log ++ [n] := by simp
        refine { hs with
          released := fun x hx hreleased => hsub (hs.released x hx hreleased)
          log := ?_
          logged := ?_
          account := fun m hm => (hs.account m hm).imp_left (@hsub m)
          received := hreceived hsub hlast
          sent := hsent hsub hlast
          lined := hlined.read_new hn }
        · rw [List.pairwise_append]
          refine ⟨hs.log, List.pairwise_singleton _ _, ?_⟩
          intro m hm k hk
          rw [List.mem_singleton.mp hk]
          exact hlined.newer hfirst hn m hm
        · intro m hm
          rcases List.mem_append.mp hm with hm | hm
          · exact hs.logged hm
          · rw [List.mem_singleton.mp hm]
            exact hlined.known hfirst

/-- Only what the receiver has passed on may be released: the log hypothesis is what a
confirmation proves. -/
theorem Inv.release (hs : s.Inv) {x : Item ι} (hx : x ∈ s.queue) (hlog : x.number ∈ s.log) :
    (s.release x.id).Inv := by
  have hids : ((s.release x.id).queue.map Item.id) = s.queue.map Item.id := by
    rw [State.release, List.map_map]
    refine List.map_congr_left fun y _ => ?_
    simp only [Function.comp_apply]
    split <;> rfl
  have hnumbers : ((s.release x.id).queue.map Item.number) = s.queue.map Item.number := by
    rw [State.release, List.map_map]
    refine List.map_congr_left fun y _ => ?_
    simp only [Function.comp_apply]
    split <;> rfl
  refine hs.requeue (by rw [← hids]; exact .refl _) (by rw [← hnumbers]; exact .refl _) ?_ ?_
    (List.Subset.refl _) ?_
  · intro n id hmem
    obtain ⟨y, hy, heq⟩ := List.mem_map.mp hmem
    split at heq
    · cases heq
    · exact heq ▸ hy
  · intro y hy hreleased
    obtain ⟨z, hz, rfl⟩ := List.mem_map.mp hy
    split at hreleased
    next hid =>
      rw [if_pos hid, hs.eq_of_id hz hx hid]
      exact hlog
    next hid =>
      rw [if_neg hid]
      exact hs.released z hz hreleased
  · intro n id hmem
    by_cases hid : id = x.id
    · rw [← hs.eq_of_id hmem hx hid] at hlog
      exact Or.inl hlog
    · exact Or.inr (Or.inl ⟨id, List.mem_map.mpr ⟨_, hmem, by rw [if_neg hid]⟩⟩)

theorem Inv.finish (hs : s.Inv) (id : ι) : (s.finish id).Inv := by
  refine hs.requeue (List.filter_sublist.map _) (List.filter_sublist.map _) ?_ ?_
    (List.Subset.refl _) ?_
  · exact fun n id' hmem => List.mem_of_mem_filter hmem
  · exact fun x hx hreleased => hs.released x (List.mem_of_mem_filter hx) hreleased
  · exact fun n id' hmem => Or.inr (Or.inl ⟨id', List.mem_filter.mpr ⟨hmem, rfl⟩⟩)

/-- Whatever the sender does on a reply, a confirmation of receipt is believed only if the
receiver has the item. -/
theorem Inv.answer {s' : State ι} {r : Reply ι} (hs : s.Inv)
    (hreceived : ∀ id, r = .received id → ∀ {n}, .data n id ∈ s.outbox → n ∈ s.log)
    (hanswers : s.Answers r s') : s'.Inv := by
  cases hanswers with
  | confirm x hx hwaits =>
      have hdata : .data x.number x.id ∈ s.outbox := by
        rw [data_mem_outbox, ← hwaits]
        exact hx
      have hs' := hs.release hx (hreceived _ rfl hdata)
      refine hs'.put fun _ => hs'.lined.release (fun f hf => List.mem_singleton.mp hf) ?_
      intro n hmem
      obtain ⟨y, -, heq⟩ := List.mem_map.mp (data_mem_outbox.mp hmem)
      split at heq
      · cases congrArg Item.released heq
      next hid =>
        rw [heq] at hid
        exact hid rfl
  | unknown id hnone frames honly =>
      refine hs.put fun _ => hs.lined.release honly ?_
      intro n hmem
      cases hnone _ (data_mem_outbox.mp hmem) rfl
  | complete id => exact hs.finish id

/-- One case per step of the exchange. -/
theorem Inv.step {s' : State ι} (hs : s.Inv) (hstep : s.Step s') : s'.Inv := by
  cases hstep with
  | offer n id hfresh hrest => exact hs.offer hfresh hrest
  | resend frames hqueued =>
      refine hs.put fun honline => hs.lined.resend hqueued hs.clash ?_
      exact fun _ _ hdata => hs.sent honline hdata
  | drop keep => exact hs.dropAll keep
  | read f rest hfirst => exact hs.read hfirst
  | answer r s₁ _ htook hanswers =>
      obtain ⟨hs₁, hreceived⟩ := htook.inv hs
      exact hs₁.answer hreceived hanswers
  | lose => exact { hs with sent := fun honline => absurd honline Bool.false_ne_true }
  | connect => exact hs.connect

theorem Inv.reaches {s' : State ι} (hs : s.Inv) (hreaches : Reaches s s') : s'.Inv := by
  induction hreaches with
  | refl => exact hs
  | tail _ hstep ih => exact ih.step hstep

end Exchanging

/-! ## What is passed on -/

/-- If nothing was given up, what was passed on comes first among the items, and every
other item waits for its first confirmation. -/
theorem Inv.log_append (hs : s.Inv) (hdropped : s.dropped = []) :
    ∃ waiting, s.offered = s.log ++ waiting ∧ ∀ n ∈ waiting, ∃ id, ⟨n, id, false⟩ ∈ s.queue := by
  have hwaits : ∀ n ∈ s.offered, n ∉ s.log → ∃ id, ⟨n, id, false⟩ ∈ s.queue := by
    intro n hn hnot
    rcases hs.account n hn with hlog | ⟨id, hdata⟩ | hdrop
    · exact absurd hlog hnot
    · exact ⟨id, data_mem_outbox.mp hdata⟩
    · rw [hdropped] at hdrop
      cases hdrop
  refine ⟨s.offered.filter (· ∉ s.log), ?_, ?_⟩
  · -- both sides are in order and have the same elements
    have hnodup : s.offered.Nodup := hs.offered.imp Nat.ne_of_lt
    have hsorted : (s.log ++ s.offered.filter (· ∉ s.log)).Pairwise (· < ·) := by
      rw [List.pairwise_append]
      refine ⟨hs.log, hs.offered.filter _, fun m hm n hn => ?_⟩
      rw [List.mem_filter, decide_eq_true_eq] at hn
      obtain ⟨id, hdata⟩ := hwaits n hn.1 hn.2
      exact hs.lined.newer (List.mem_append_right _ (data_mem_outbox.mpr hdata)) hn.2 m hm
    refine List.Perm.eq_of_pairwise' hs.offered hsorted ?_
    rw [List.perm_ext_iff_of_nodup hnodup (hsorted.imp Nat.ne_of_lt)]
    intro n
    rw [List.mem_append, List.mem_filter, decide_eq_true_eq]
    constructor
    · intro hn
      by_cases hlog : n ∈ s.log
      · exact Or.inl hlog
      · exact Or.inr ⟨hn, hlog⟩
    · rintro (hlog | hn)
      · exact hs.logged hlog
      · exact hn.1
  · intro n hn
    rw [List.mem_filter, decide_eq_true_eq] at hn
    exact hwaits n hn.1 hn.2

end State

end Exchange
