import Relay.Server.Audit

/-! # Attempts and transmissions

The attempt counter of an entry against the PUBLISH packets that its session sent for it. A
message queued offline has one attempt on its counter and none made; a resume sends without
counting, a retry sends and counts. The counter is at most one ahead of the transmissions,
and as long as a session has a channel every message in its queue has been sent at least
once, so that no message is given up before it was sent often enough. Whether the channel
still has a receiver is another matter, which the sender does not look at.
-/

namespace Relay

open Roster (Record)

namespace Watched

variable {cfg : RetryConfig}

/-- How often the session sent a PUBLISH for a message; `Session::send` ignores the error of
a channel whose receiver is gone, so this counts attempts of the sender. -/
def transmissions (w : Watched cfg) (n : Nat) : Nat := (w.publishes n).length

def attemptsBefore (s : Session) (n : Nat) : Nat := s.inflight[n]?.elim 0 InflightEntry.attempts

/-- Every message that is not confirmed has been sent. -/
def AllSent (w : Watched cfg) : Prop :=
  ∀ n e, (n, e) ∈ w.roster.items → e.state.undelivered ≠ none → 1 ≤ w.transmissions n

/-- The counters do not run ahead of the transmissions. -/
structure Paced (s : Session) (w : Watched cfg) : Prop where
  attempts : ∀ n e, (n, e) ∈ w.roster.items → e.state.undelivered ≠ none →
    e.attempts ≤ attemptsBefore s n + max 1 (w.transmissions n)
  given : ∀ t ∈ w.turns, ∀ now, t.handling = .call (.tickRetries now) →
    ∀ r ∈ t.records, r.note.dead ≠ none → 1 ≤ w.transmissions r.name ∧
      cfg.maxAttempts ≤ attemptsBefore s r.name + w.transmissions r.name

variable {w : Watched cfg} {hd : Handling} {s s' : Session} {dead : List DeadMsg}
  {r : Record InflightEntry Trace} {e : InflightEntry}

/-- Handling a session forgets no transmission. -/
theorem transmissions_le_after (hhandle : w.session.handle cfg hd = some (s', dead)) (n : Nat) :
    w.transmissions n ≤ (after hhandle).transmissions n := by
  rw [transmissions, transmissions, publishes_after, List.length_append]
  exact Nat.le_add_right _ _

/-- A message whose record has a PUBLISH is sent once more. -/
theorem transmissions_after (hhandle : w.session.handle cfg hd = some (s', dead))
    (hr : r ∈ w.records hd) {p : Publish} (hpacket : r.note.packet = some (.publish p)) :
    (after hhandle).transmissions r.name = w.transmissions r.name + 1 := by
  have hone : (w.records hd).filter (·.name = r.name) = [r] :=
    w.roster.filter_name_records _ _ hr
  rw [transmissions, transmissions, publishes_after, hone, List.length_append]
  simp [publishesOf, hpacket, Packet.publish?]

/-- A redelivery of a message that is not confirmed is a PUBLISH. -/
theorem exists_redelivery (hundelivered : e.state.undelivered ≠ none) :
    ∃ p, e.state.redelivery = .publish p := by
  cases hstate : e.state with
  | qos1 p => exact ⟨_, rfl⟩
  | qos2AwaitRec p => exact ⟨_, rfl⟩
  | qos2AwaitComp pid => exact absurd (by rw [hstate]; rfl) hundelivered

/-- A message in the queue after a handling was there before and made a move, or was
recorded. -/
theorem exists_record (hhandle : w.session.handle cfg hd = some (s', dead)) {n : Nat}
    (hmem : (n, e) ∈ (after hhandle).roster.items) :
    ∃ r ∈ w.records hd, r.name = n ∧ r.after = some e ∧
      ((∃ e₀, (n, e₀) ∈ w.roster.items ∧ r.before = some e₀) ∨ r.before = none) := by
  rcases (w.roster.mem_advance_iff _ _).mp hmem with ⟨e₀, he₀, hfate⟩ | ⟨b, hb, rfl, rfl⟩
  · refine ⟨⟨n, some e₀, (w.fate hd n e₀).1, (w.fate hd n e₀).2⟩, ?_, rfl, hfate,
      Or.inl ⟨e₀, he₀, rfl⟩⟩
    exact (Roster.mem_records_iff ..).mpr (Or.inl ⟨(n, e₀), he₀, rfl⟩)
  · refine ⟨⟨w.roster.next, none, some b.1, b.2⟩, ?_, rfl, rfl, Or.inr rfl⟩
    exact (Roster.mem_records_iff ..).mpr (Or.inr ⟨b, hb, rfl⟩)

/-- A retry of the timer is only made for a session that is online and has sent
everything. -/
def Due (w : Watched cfg) : Handling → Prop
  | .call (.tickRetries _) => w.session.tx.isSome = true ∧ w.AllSent
  | _ => True

/-- A message's counter moves on only with a transmission of it; what a reconnect sends
again is not counted. -/
theorem Paced.after (hw : w.Paced s) (hdue : w.Due hd)
    (hhandle : w.session.handle cfg hd = some (s', dead)) : (after hhandle).Paced s where
  attempts n e hmem hundelivered := by
    obtain ⟨r, hr, rfl, hafter, ⟨e₀, he₀, hbefore⟩ | hbefore⟩ := exists_record hhandle hmem
    · have hmove := move_of_record hr hbefore
      have hle := transmissions_le_after hhandle r.name
      have hsent : ∀ p, r.note.packet = some (.publish p) →
          (Watched.after hhandle).transmissions r.name = w.transmissions r.name + 1 :=
        fun p => transmissions_after hhandle hr
      generalize r.note = note at hmove hsent
      rw [hafter] at hmove
      cases hmove with
      | spared =>
          have hold := hw.attempts r.name e he₀ hundelivered
          omega
      | resent now =>
          have hold := hw.attempts r.name e₀ he₀ hundelivered
          change e₀.attempts ≤ _
          omega
      | received => exact absurd rfl hundelivered
      | retried now =>
          have hold := hw.attempts r.name e₀ he₀ hundelivered
          have hone := hdue.2 r.name e₀ he₀ hundelivered
          obtain ⟨p, hp⟩ := exists_redelivery hundelivered
          have hmore := hsent p (by rw [if_pos hdue.1]; exact congrArg some hp)
          have hcount : (e₀.retried now cfg).attempts ≤ e₀.attempts + 1 := Nat.mod_le _ _
          omega
    · have hbirth := birth_of_record hr hbefore
      rw [hafter] at hbirth
      generalize r.note = note at hbirth
      cases hbirth with
      | recorded topic payload qos retain now _ hentry =>
          have hfirst : e.attempts = 1 := by cases qos <;> cases hentry <;> rfl
          omega
  given t ht now htick r hr hdead := by
    have hle := transmissions_le_after hhandle r.name
    rcases List.mem_append.mp ht with hold | hnew
    · obtain ⟨hone, hmax⟩ := hw.given t hold now htick r hr hdead
      omega
    · rw [List.mem_singleton.mp hnew] at hr htick
      obtain rfl : hd = .call (.tickRetries now) := htick
      have hr' : r ∈ w.records (.call (.tickRetries now)) := hr
      cases hbefore : r.before with
      | none =>
          have hbirth := birth_of_record hr' hbefore
          generalize r.after = after at hbirth
          cases hbirth
      | some e₀ =>
          have hmem := (mem_items_of_record hr' hbefore).1
          have hmove := move_of_record hr' hbefore
          generalize r.after = after, r.note = note at hmove hdead
          cases hmove with
          | died now p _ hundelivered hmax =>
              have hne : e₀.state.undelivered ≠ none := by simp [hundelivered]
              have hold := hw.attempts r.name e₀ hmem hne
              have hone := hdue.2 r.name e₀ hmem hne
              omega
          | spared => exact absurd rfl hdead
          | retried => exact absurd rfl hdead

/-! ## Online sessions -/

/-- Only attaching brings a session online. -/
theorem online_of_after (hattach : hd ≠ .call .attach)
    (hhandle : w.session.handle cfg hd = some (s', dead)) (honline : s'.tx.isSome = true) :
    w.session.tx.isSome = true := by
  cases hkeeps : hd.keepsChannel with
  | true =>
      have hsent : s'.tx = w.session.tx.map _ := (turn hhandle).sent hkeeps
      rw [hsent, Option.isSome_map] at honline
      exact honline
  | false =>
      -- the only other handling that ends a channel is a detach
      cases hd with
      | call op =>
          cases op with
          | attach => exact absurd rfl hattach
          | detach =>
              cases hhandle
              cases honline
          | _ => cases hkeeps
      | _ => cases hkeeps

theorem AllSent.after (hsent : w.session.tx.isSome = true → w.AllSent)
    (hattach : hd ≠ .call .attach) (hhandle : w.session.handle cfg hd = some (s', dead))
    (honline : s'.tx.isSome = true) : (Watched.after hhandle).AllSent := by
  have hbefore := online_of_after hattach hhandle honline
  intro n e hmem hundelivered
  obtain ⟨r, hr, rfl, hafter, ⟨e₀, he₀, hold⟩ | hnew⟩ := exists_record hhandle hmem
  · have hle := transmissions_le_after hhandle r.name
    have hmove := move_of_record hr hold
    generalize r.note = note at hmove
    rw [hafter] at hmove
    refine (hsent hbefore r.name e₀ he₀ ?_).trans hle
    cases hmove with
    | spared => exact hundelivered
    | resent now => exact hundelivered
    | retried now => exact hundelivered
    | received => exact absurd rfl hundelivered
  · have hbirth := birth_of_record hr hnew
    have hone : ∀ p, r.note.packet = some (.publish p) →
        (Watched.after hhandle).transmissions r.name = w.transmissions r.name + 1 :=
      fun p => transmissions_after hhandle hr
    generalize r.after = after, r.note = note at hbirth hone
    cases hbirth with
    | recorded topic payload qos retain now e hentry =>
        have hmore := hone (w.session.publishFor topic payload qos retain) (by rw [if_pos hbefore])
        omega

/-- A retransmission sends whatever is not confirmed. -/
theorem allSent_of_retransmit {now : Nat}
    (hhandle : w.session.handle cfg (.call (.retransmit now)) = some (s', dead))
    (honline : s'.tx.isSome = true) : (Watched.after hhandle).AllSent := by
  have hbefore := online_of_after (by simp) hhandle honline
  intro n e hmem hundelivered
  obtain ⟨r, hr, rfl, hafter, ⟨e₀, he₀, hold⟩ | hnew⟩ := exists_record hhandle hmem
  · have hmove := move_of_record hr hold
    have hone : ∀ p, r.note.packet = some (.publish p) →
        (Watched.after hhandle).transmissions r.name = w.transmissions r.name + 1 :=
      fun p => transmissions_after hhandle hr
    generalize r.note = note at hmove hone
    rw [hafter] at hmove
    cases hmove with
    | spared hspares => exact hspares.elim
    | resent =>
        obtain ⟨p, hp⟩ := exists_redelivery (e := e₀) hundelivered
        have hmore := hone p (by rw [if_pos hbefore]; exact congrArg some hp)
        omega
  · have hbirth := birth_of_record hr hnew
    generalize r.after = after, r.note = note at hbirth
    cases hbirth

structure Steady (s : Session) (w : Watched cfg) : Prop where
  paced : w.Paced s
  sent : w.session.tx.isSome = true → w.AllSent

theorem steady_start (s : Session) (hqueue : s.tx.isSome = true → s.inflight = []) :
    (start cfg s).Steady s := by
  have hget : ∀ n e, (n, e) ∈ (start cfg s).roster.items → s.inflight[n]? = some e := by
    intro n e hmem
    obtain ⟨i, hi⟩ := List.mem_iff_getElem?.mp hmem
    simp only [start, Roster.ofList, List.getElem?_zip_eq_some] at hi
    obtain ⟨hname, hentry⟩ := hi
    obtain rfl : i = n := by
      simpa using (List.getElem?_eq_some_iff.mp hname).2
    exact hentry
  refine ⟨⟨?_, List.forall_mem_nil _⟩, ?_⟩
  · intro n e hmem _
    rw [attemptsBefore, hget n e hmem, Option.elim_some]
    exact Nat.le_add_right _ _
  · intro honline n e hmem
    have hsome := hget n e hmem
    rw [hqueue honline] at hsome
    cases hsome

variable {w' : Watched cfg}

/-- A section that is no attach and ticks only online sessions keeps pace. -/
theorem Steady.step (hw : w.Steady s) (hattach : hd ≠ .call .attach)
    (htick : ∀ now, hd = .call (.tickRetries now) → w.session.tx.isSome = true)
    (hstep : w.step hd = some w') : w'.Steady s := by
  obtain ⟨s', dead, hhandle, rfl⟩ := exists_of_step hstep
  refine ⟨hw.paced.after ?_ hhandle, AllSent.after hw.sent hattach hhandle⟩
  unfold Due
  split
  next now =>
    have honline := htick now rfl
    exact ⟨honline, hw.sent honline⟩
  next => trivial

/-- A resume: the new channel, and then the whole queue. -/
theorem Steady.resume (hw : w.Steady s) {now : Nat}
    (hrun : Machine.run Watched.step w [.call .attach, .call (.retransmit now)] = some w') :
    w'.Steady s := by
  obtain ⟨w₁, hattach, hrest⟩ := Machine.run_cons_eq_some.mp hrun
  obtain ⟨w₂, hretransmit, hlast⟩ := Machine.run_cons_eq_some.mp hrest
  cases hlast
  obtain ⟨s₁, dead₁, hhandle₁, rfl⟩ := exists_of_step hattach
  obtain ⟨s₂, dead₂, hhandle₂, rfl⟩ := exists_of_step hretransmit
  have hdue₁ : w.Due (.call .attach) := trivial
  have hdue₂ : (after hhandle₁).Due (.call (.retransmit now)) := trivial
  exact ⟨(hw.paced.after hdue₁ hhandle₁).after hdue₂ hhandle₂, allSent_of_retransmit hhandle₂⟩

theorem Steady.run (hw : w.Steady s) {handlings : List Handling}
    (hplain : handlings.all Handling.plain = true)
    (hrun : Machine.run Watched.step w handlings = some w') : w'.Steady s := by
  induction handlings generalizing w with
  | nil =>
      cases hrun
      exact hw
  | cons hd rest ih =>
      rw [List.all_cons, Bool.and_eq_true] at hplain
      obtain ⟨w₁, hfirst, hlast⟩ := Machine.run_cons_eq_some.mp hrun
      refine ih (hw.step ?_ ?_ hfirst) hplain.2 hlast
      · rintro rfl
        cases hplain.1
      · rintro now rfl
        cases hplain.1

/-- What a section does to a session keeps it steady. -/
theorem Steady.touches (hw : w.Steady s) {t : Session} (halike : w.session.Alike t)
    {sec : Section} {h : Hub} {id : ClientId}
    (hrun : Machine.run Watched.step w (sec.touches h id t) = some w') : w'.Steady s := by
  rcases sec.touches_cases h id t with hplain | ⟨now, hresume⟩ | ⟨now, htick, honline⟩
  · exact hw.run hplain hrun
  · rw [hresume] at hrun
    exact hw.resume hrun
  · rw [htick] at hrun
    obtain ⟨w₁, hfirst, hlast⟩ := Machine.run_cons_eq_some.mp hrun
    cases hlast
    refine hw.step (by simp) (fun _ _ => ?_) hfirst
    have htx : t.tx = w.session.tx := by rw [halike]
    rw [← htx, ← Option.ne_none_iff_isSome]
    exact honline

theorem kept_steady : Kept (fun s (w : Watched cfg) => w.Steady s) where
  start := steady_start
  touched _ _ _ _ _ _ _ hw halike hrun := hw.touches halike hrun

end Watched

/-! ## Messages that the timer gives up -/

namespace Audit

variable {cfg : RetryConfig}

/-- So many transmissions justify giving the message up: if it is from this run, at least
one and at least as many as the policy has attempts; if it was restored, at least one, and
as many as the attempts that its counter lacked. -/
def Spent (cfg : RetryConfig) (h₀ : Hub) (c : Casualty) (count : Nat) : Prop :=
  match (h₀.queueOf c.id)[c.name]? with
  | none => max 1 cfg.maxAttempts ≤ count
  | some e => 1 ≤ count ∧ cfg.maxAttempts ≤ e.attempts + count

theorem spent_of_steady {h₀ : Hub} {s : Session} {w : Watched cfg} (hw : w.Steady s) {c : Casualty}
    (hqueue : s.inflight = h₀.queueOf c.id) {t : Turn cfg} (ht : t ∈ w.turns) {now : Nat}
    (htick : t.handling = .call (.tickRetries now)) {r : Record InflightEntry Trace}
    (hr : r ∈ t.records) (hname : r.name = c.name) (hdead : r.note.dead ≠ none) :
    Spent cfg h₀ c (w.transmissions c.name) := by
  obtain ⟨hone, hmax⟩ := hw.paced.given t ht now htick r hr hdead
  rw [hname] at hone hmax
  unfold Spent
  unfold Watched.attemptsBefore at hmax
  rw [hqueue] at hmax
  split
  next hnew =>
    rw [hnew, Option.elim_none] at hmax
    omega
  next e hrestored =>
    rw [hrestored, Option.elim_some] at hmax
    exact ⟨hone, hmax⟩

/-- What the timer gave up was sent often enough. -/
theorem Filed.spent {a : Audit cfg} {h₀ : Hub} {task : Task} (hfiled : a.Filed task)
    (hsteady : a.Each (fun s w => w.Steady s) h₀) {now : Nat} (hcause : task.cause = .tick now)
    {c : Casualty} (hc : c ∈ task.dead) :
    ∃ w, a.watched c.id = some w ∧ Spent cfg h₀ c (w.transmissions c.name) ∧
      ∃ t ∈ w.turns, t.handling = .call (.tickRetries now) ∧
        ∃ r ∈ t.records, r.name = c.name ∧ r.note.dead = some c.msg := by
  obtain ⟨-, hd, hlethal, hgave⟩ := hfiled
  rw [hcause] at hlethal
  obtain ⟨-, rfl⟩ := Prod.mk.inj (Option.some.inj hlethal)
  obtain ⟨w, hw, t, ht, htick, r, hr, hname, hdead⟩ := hgave c hc
  obtain ⟨s, hqueue, hs⟩ := hsteady.each c.id w hw
  refine ⟨w, hw, ?_, t, ht, htick, r, hr, hname, hdead⟩
  exact spent_of_steady hs hqueue ht htick hr hname (by simp [hdead])

end Audit

end Relay
