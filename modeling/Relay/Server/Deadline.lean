import Relay.Server.Attempts
import Relay.Server.WorkQueue

/-! # How long a message can go unconfirmed

A client that stays online and does not confirm a message gets it again on every due tick
of the timer, each time after the next pause, until its attempts are used up. With ticks
at most `gap` apart that takes a bounded time: by its deadline the message has been handed
over to be dead-lettered. The other sections of the broker, and other dead letters, may
come in any order in between.
-/

namespace Relay

open Roster (Record)

namespace InflightEntry

/-- The last time at which a message may be in the queue after a tick, with ticks at most
`gap` apart: when it is due, and a late tick and a pause for every attempt left. -/
def deadline (cfg : RetryConfig) (gap : Nat) (e : InflightEntry) : Nat :=
  e.nextDue + ∑ k ∈ Finset.Ico e.attempts cfg.maxAttempts, (gap + backoff cfg (k + 1))

variable {cfg : RetryConfig} {gap now : Nat} {e : InflightEntry}

/-- The deadline is never before the next attempt. -/
theorem nextDue_le_deadline : e.nextDue ≤ e.deadline cfg gap := Nat.le_add_right _ _

/-- A redelivery uses up one attempt of those that the deadline allows for. -/
theorem deadline_retried (hmax : cfg.maxAttempts < u32Bound) (hleft : e.attempts < cfg.maxAttempts)
    (hlate : now ≤ e.nextDue + gap) : (e.retried now cfg).deadline cfg gap ≤ e.deadline cfg gap := by
  have hcount : (e.attempts + 1) % u32Bound = e.attempts + 1 := Nat.mod_eq_of_lt (by omega)
  rw [deadline, deadline, Finset.sum_eq_sum_Ico_succ_bot hleft]
  simp only [retried, hcount]
  omega

/-- A message outside `$dlq/` that is still to be sent again has attempts left. -/
theorem attempts_lt_of_deadNow {p : Publish} (halive : e.deadNow cfg = none)
    (hp : e.state.undelivered = some p) (houtside : isDlqTopic p.topic = false) :
    e.attempts < cfg.maxAttempts := by
  by_contra hspent
  simp [deadNow, hp, houtside, Nat.not_lt.mp hspent] at halive

end InflightEntry

/-! ## One session -/

namespace Handling

/-- Neither confirms the message, nor drains the queue, nor puts the message off. -/
def leaves (pid : Nat) : Handling → Bool
  | .call (.retransmit _) => false
  | .call (.tickRetries _) => false
  | .call (.onPuback pid') => pid' ≠ pid
  | .call (.onPubrec pid') => pid' ≠ pid
  | .drain => false
  | _ => true

variable {cfg : RetryConfig} {online : Bool} {e : InflightEntry} {hd : Handling}
  {after : Option InflightEntry} {note : Trace} {p : Publish} {pid : Nat}

/-- A handling that leaves the message alone leaves its entry alone. -/
theorem Move.eq_of_leaves (hmove : hd.Move cfg online e after note)
    (hp : e.state.undelivered = some p) (hpid : p.packetId = some pid)
    (hleaves : hd.leaves pid = true) : after = some e := by
  have hpublish : ∀ q, e.state.undelivered = some q → q.packetId = some pid := by
    intro q hq
    rwa [← Option.some.inj (hp.symm.trans hq)]
  cases hmove with
  | spared => rfl
  | resent => cases hleaves
  | retried => cases hleaves
  | acked pid' q hstate hpid' =>
      have heq := (hpublish q (by rw [hstate]; rfl)).symm.trans hpid'
      simp [leaves, Option.some.inj heq] at hleaves
  | received pid' q hstate hpid' =>
      have heq := (hpublish q (by rw [hstate]; rfl)).symm.trans hpid'
      simp [leaves, Option.some.inj heq] at hleaves
  | completed pid' hstate => rw [hstate] at hp; cases hp
  | died => cases hleaves
  | drained => cases hleaves

end Handling

namespace Watched

variable {cfg : RetryConfig} {w w' : Watched cfg} {hd : Handling} {n pid gap bound since now : Nat}
  {p : Publish} {s' : Session} {dead : List DeadMsg} {e : InflightEntry}

/-- The message is in the queue without a confirmation; it was not overdue when the timer
came last, and it keeps to its deadline. -/
def Waits (gap bound n : Nat) (p : Publish) (since : Nat) (w : Watched cfg) : Prop :=
  ∃ e, (n, e) ∈ w.roster.items ∧ e.state.undelivered = some p ∧ since ≤ e.nextDue ∧
    e.deadline cfg gap ≤ bound

/-- A message in the queue is on record in every handling, and its record says what is in
the queue afterwards. -/
theorem exists_move (hmem : (n, e) ∈ w.roster.items)
    (hhandle : w.session.handle cfg hd = some (s', dead)) :
    ∃ r ∈ w.records hd, r.name = n ∧ hd.Move cfg w.session.tx.isSome e r.after r.note ∧
      ∀ e', r.after = some e' → (n, e') ∈ (after hhandle).roster.items := by
  have hr : (⟨n, some e, (w.fate hd n e).1, (w.fate hd n e).2⟩ : Record InflightEntry Trace) ∈
      w.records hd := (Roster.mem_records_iff ..).mpr (Or.inl ⟨(n, e), hmem, rfl⟩)
  refine ⟨_, hr, rfl, move_of_record hr rfl, fun e' he' => ?_⟩
  exact (w.roster.mem_advance_iff _ _).mpr (Or.inl ⟨e, hmem, he'⟩)

/-- The message waits through handlings that leave it alone. -/
theorem Waits.run (hw : w.Waits gap bound n p since) (hpid : p.packetId = some pid)
    {handlings : List Handling} (hleaves : ∀ hd ∈ handlings, hd.leaves pid = true)
    (hrun : Machine.run Watched.step w handlings = some w') : w'.Waits gap bound n p since := by
  induction handlings generalizing w with
  | nil =>
      cases hrun
      exact hw
  | cons hd rest ih =>
      obtain ⟨w₁, hfirst, hrest⟩ := Machine.run_cons_eq_some.mp hrun
      obtain ⟨s', dead, hhandle, rfl⟩ := exists_of_step hfirst
      refine ih ?_ (fun hd' hmem => hleaves hd' (List.mem_cons_of_mem _ hmem)) hrest
      obtain ⟨e, hmem, hp, hdue⟩ := hw
      obtain ⟨r, -, -, hmove, hafter⟩ := exists_move hmem hhandle
      exact ⟨e, hafter e (hmove.eq_of_leaves hp hpid (hleaves hd List.mem_cons_self)), hp, hdue⟩

/-- A tick gives the message up, or leaves it to wait from then on. -/
theorem Waits.tick (hw : w.Waits gap bound n p since) (hmax : cfg.maxAttempts < u32Bound)
    (houtside : isDlqTopic p.topic = false) (hlate : now ≤ since + gap)
    (hhandle : w.session.handle cfg (.call (.tickRetries now)) = some (s', dead)) :
    (after hhandle).Waits gap bound n p now ∨
      (now ≤ bound + gap ∧ ∃ attempts, cfg.maxAttempts ≤ attempts ∧
        ∃ r ∈ w.records (.call (.tickRetries now)), r.name = n ∧ r.note.dead = some ⟨p, attempts⟩) := by
  obtain ⟨e, hmem, hp, hdue, hbound⟩ := hw
  obtain ⟨r, hr, hname, hmove, hafter⟩ := exists_move hmem hhandle
  have hnextDue : e.nextDue ≤ e.deadline cfg gap := e.nextDue_le_deadline
  generalize hra : r.after = after, hrn : r.note = note at hmove hafter
  cases hmove with
  | spared hearly =>
      have hearly : now < e.nextDue := hearly
      exact Or.inl ⟨e, hafter e rfl, hp, hearly.le, hbound⟩
  | retried _ _ halive =>
      have hleft := InflightEntry.attempts_lt_of_deadNow halive hp houtside
      refine Or.inl ⟨_, hafter _ rfl, hp, Nat.le_add_right _ _, ?_⟩
      exact (InflightEntry.deadline_retried hmax hleft (by omega)).trans hbound
  | died _ q _ hq hattempts =>
      obtain rfl := Option.some.inj (hp.symm.trans hq)
      exact Or.inr ⟨by omega, e.attempts, hattempts, r, hr, hname, by rw [hrn]⟩

end Watched

/-! ## The broker around the session -/

/-- Neither brings the client's session a new connection, nor ends the one it has, nor
confirms the message. -/
def Section.leaves (id : ClientId) (s : Session) (pid : Nat) : Section → Bool
  | .connect clientId _ _ _ => clientId ≠ s.clientId
  | .detach id' generation => ¬ (id' = id ∧ generation = s.generation)
  | .acknowledge id' (.puback pid') => ¬ (id' = id ∧ pid' = pid)
  | .acknowledge id' (.pubrec pid') => ¬ (id' = id ∧ pid' = pid)
  | _ => true

namespace Hub

variable {h h' : Hub} {id : ClientId} {s : Session} {sec : Section} {pid : Nat}

/-- The session is there, with the connection that it had. -/
theorem Consistent.holder_of_leaves (hcons : h.Consistent) (honline : s.tx.isSome = true)
    (hholder : h.sessions.holder id = some s.holder) (hleaves : sec.leaves id s pid = true)
    (hact : h.act sec = some h') : h'.sessions.holder id = some s.holder := by
  cases hmoves : sec.moves with
  | false => rw [(unmoved_act hact hmoves).holder, hholder]
  | true =>
      cases sec with
      | connect clientId cleanStart expirySecs now =>
          obtain ⟨⟨c, h₁⟩, hconnect, rfl⟩ := Option.map_eq_some_iff.mp hact
          have hne : s.clientId ≠ clientId := Ne.symm (of_decide_eq_true hleaves)
          have hid : id ≠ c.id := by
            rintro rfl
            exact hne (hcons.holder_connect_own hconnect hholder)
          rw [(hcons.holder_connect hconnect).1, Function.update_of_ne hid, hholder]
          exact if_pos (decide_eq_true hne)
      | detach id' generation =>
          cases hact
          rw [holder_detach, Function.update_apply]
          split
          next heq =>
            have hstale : s.holder.generation ≠ generation := by
              intro hgeneration
              exact of_decide_eq_true hleaves ⟨heq.symm, hgeneration.symm⟩
            rw [← heq, hholder, Option.bind_some, Holder.detached, if_neg hstale]
          next => exact hholder
      | expire id' generation =>
          cases hact
          rw [holder_expire, Function.update_apply]
          split
          next heq =>
            have hattached : ¬ (s.holder.generation = generation ∧ s.holder.online = false) := by
              simp [Session.holder, honline]
            rw [← heq, hholder, Option.bind_some, Holder.expired, if_neg hattached]
          next => exact hholder
      | _ => cases hmoves

/-- Except for the timer, such a section leaves the message where it is. -/
theorem Consistent.leaves_touches (hcons : h.Consistent) (honline : s.tx.isSome = true)
    {t : Session} (ht : h.sessions.byId.lookup id = some t) (hholder : t.holder = s.holder)
    (hleaves : sec.leaves id s pid = true) (htick : ∀ now, sec ≠ .tick now) :
    ∀ hd ∈ sec.touches h id t, hd.leaves pid = true := by
  intro hd hmem
  cases sec with
  | connect clientId cleanStart expirySecs now =>
      have hother : h.sessions.idOf.lookup clientId ≠ some id := by
        intro hid
        obtain ⟨t', ht', hclient⟩ := clientOf_eq_some_iff.mp ((hcons.inverse clientId id).mp hid)
        rw [ht] at ht'
        cases ht'
        exact of_decide_eq_true hleaves
          (hclient.symm.trans (congrArg Holder.clientId hholder))
      rw [Section.touches, if_neg (fun hand => hother hand.1)] at hmem
      cases hmem
  | detach id' generation =>
      have hother : ¬ (id' = id ∧ t.generation = generation) := by
        rintro ⟨hid, hgeneration⟩
        have hsame : t.generation = s.generation := congrArg Holder.generation hholder
        exact of_decide_eq_true hleaves ⟨hid, hgeneration.symm.trans hsame⟩
      rw [Section.touches, if_neg hother] at hmem
      cases hmem
  | expire id' generation =>
      have hattached : t.tx ≠ none := by
        have hsame : t.tx.isSome = s.tx.isSome := congrArg Holder.online hholder
        rw [Option.ne_none_iff_isSome, hsame]
        exact honline
      rw [Section.touches, if_neg (fun hand => hattached hand.2.2)] at hmem
      cases hmem
  | acknowledge id' ack =>
      rw [Section.touches] at hmem
      split at hmem
      next hid =>
        obtain rfl := List.mem_singleton.mp hmem
        cases ack with
        | puback pid' =>
            exact decide_eq_true fun heq => of_decide_eq_true hleaves ⟨hid, heq⟩
        | pubrec pid' =>
            exact decide_eq_true fun heq => of_decide_eq_true hleaves ⟨hid, heq⟩
        | pubcomp pid' => rfl
      next => cases hmem
  | deliver targets topic payload msgQos now =>
      obtain ⟨target, -, rfl⟩ := List.mem_map.mp hmem
      rfl
  | replayRetained id' messages granted now =>
      rw [Section.touches] at hmem
      split at hmem
      next =>
        obtain ⟨m, -, rfl⟩ := List.mem_map.mp hmem
        rfl
      next => cases hmem
  | send id' packets =>
      rw [Section.touches] at hmem
      split at hmem
      next =>
        obtain rfl := List.mem_singleton.mp hmem
        rfl
      next => cases hmem
  | tick now => exact absurd rfl (htick now)
  | _ => cases hmem

end Hub

theorem Casualty.leaves_touches (c : Casualty) (now : Nat) (h : Hub) (id : ClientId) (s : Session)
    (pid : Nat) : ∀ hd ∈ c.touches now h id s, hd.leaves pid = true := by
  intro hd hmem
  unfold touches at hmem
  split at hmem
  · cases hmem
  · obtain ⟨target, -, rfl⟩ := List.mem_map.mp hmem
    rfl

/-! ## Runs -/

namespace Audit

def ticks (steps : List AuditStep) : List Nat :=
  steps.filterMap fun
    | .act (.tick now) => some now
    | _ => none

/-- The message was handed over by the timer, in time and after all its attempts. -/
def GivesUp {cfg : RetryConfig} (gap bound : Nat) (id : ClientId) (n : Nat) (client : String)
    (p : Publish) (a : Audit cfg) : Prop :=
  ∃ task ∈ a.tasks, ∃ now attempts, task.cause = .tick now ∧ now ≤ bound + gap ∧
    cfg.maxAttempts ≤ attempts ∧ ⟨id, n, client, ⟨p, attempts⟩⟩ ∈ task.dead

section Run

variable {cfg : RetryConfig} {a a' : Audit cfg} {id : ClientId} {s : Session}
  {n pid gap bound since now : Nat} {p : Publish}

/-- The message waits in the session, which has the connection that it had. -/
structure Waits (gap bound : Nat) (id : ClientId) (s : Session) (n : Nat) (p : Publish)
    (since : Nat) (a : Audit cfg) : Prop where
  tracks : a.Tracks
  holder : a.hub.sessions.holder id = some s.holder
  queued : ∃ w, a.watched id = some w ∧ w.Waits gap bound n p since

/-- What was given up stays given up. -/
theorem GivesUp.step {client : String} (hgave : a.GivesUp gap bound id n client p)
    (hstep : Stepped a a') : a'.GivesUp gap bound id n client p := by
  obtain ⟨task, htask, hrest⟩ := hgave
  cases hstep with
  | act sec _ _ htasks =>
      exact ⟨task, htasks ▸ List.mem_append_left _ htask, hrest⟩
  | letter k task₀ c clock hthere _ _ _ htasks =>
      obtain ⟨i, hi⟩ := List.mem_iff_getElem?.mp htask
      by_cases hk : k = i
      · -- one more message of the task is done
        subst hk
        obtain rfl := Option.some.inj (hthere.symm.trans hi)
        refine ⟨{ task₀ with done := task₀.done + 1 }, ?_, hrest⟩
        rw [htasks]
        exact List.mem_set (List.getElem?_eq_some_iff.mp hthere).1 _
      · refine ⟨task, ?_, hrest⟩
        rw [htasks]
        exact List.mem_of_getElem? ((List.getElem?_set_ne hk).trans hi)

theorem GivesUp.run {client : String} (hgave : a.GivesUp gap bound id n client p) (ha : a.Tracks)
    {steps : List AuditStep} (hrun : Machine.run Audit.step a steps = some a') :
    a'.GivesUp gap bound id n client p := by
  have hkept : ∀ (b : Audit cfg) (st : AuditStep) (b' : Audit cfg),
      b.Tracks ∧ b.GivesUp gap bound id n client p → b.step st = some b' →
      b'.Tracks ∧ b'.GivesUp gap bound id n client p := by
    rintro b st b' ⟨hb, hgave⟩ hstep
    obtain ⟨hb', hstepped⟩ := hb.step hstep
    exact ⟨hb', hgave.step hstepped⟩
  exact (Machine.run_invariant hkept ⟨ha, hgave⟩ hrun).2

/-- At a tick the message is resent and waits on, or is handed over in time. -/
theorem Waits.tick (ha : a.Waits gap bound id s n p since) (hmax : cfg.maxAttempts < u32Bound)
    (houtside : isDlqTopic p.topic = false) (honline : s.tx.isSome = true)
    (hlate : now ≤ since + gap) (hstep : Audit.step a (.act (.tick now)) = some a') :
    a'.Waits gap bound id s n p now ∨ a'.GivesUp gap bound id n s.clientId p := by
  obtain ⟨htracks, hholder, w, hw, hwaits⟩ := ha
  obtain ⟨t, ht, hsame⟩ := Option.map_eq_some_iff.mp hholder
  obtain ⟨htracks', -⟩ := htracks.step hstep
  rw [Audit.step, Option.map_eq_some_iff] at hstep
  obtain ⟨hub', hact, rfl⟩ := hstep
  have hattached : t.tx ≠ none := by
    have heq : t.tx.isSome = s.tx.isSome := congrArg Holder.online hsame
    rw [Option.ne_none_iff_isSome, heq]
    exact honline
  have htouches : (Section.tick now).touches a.hub id t = [.call (.tickRetries now)] :=
    if_neg hattached
  obtain ⟨s', dead, hhandle⟩ :
      ∃ s' dead, w.session.handle cfg (.call (.tickRetries now)) = some (s', dead) := ⟨_, _, rfl⟩
  have hfollow : a.follow hub' (fun id s => (Section.tick now).touches a.hub id s) id =
      some (Watched.after hhandle) := by
    rw [follow, ht, hw]
    exact (congrArg (Machine.run Watched.step w) htouches).trans
      (Machine.run_cons_eq_some.mpr ⟨_, Watched.step_eq hhandle, rfl⟩)
  rcases hwaits.tick hmax houtside hlate hhandle with
    hwaits' | ⟨hbound, attempts, hattempts, r, hr, rfl, hdead⟩
  · exact Or.inl ⟨htracks', by rw [(Hub.unmoved_act hact rfl).holder, hholder], _, hfollow, hwaits'⟩
  · have hclient : t.clientId = s.clientId := congrArg Holder.clientId hsame
    have hgiven : (⟨id, r.name, s.clientId, ⟨p, attempts⟩⟩ : Casualty) ∈ a.casualties (.tick now) := by
      refine mem_casualties_iff.mpr ⟨t, _, _, ht, rfl, htouches, ?_⟩
      exact mem_deaths_iff.mpr ⟨w, hw, r, hr, _, hdead, by rw [hclient]⟩
    exact Or.inr ⟨_, List.mem_append_right _ (mem_opened_iff.mpr ⟨_, _, rfl, rfl⟩), now, attempts,
      rfl, hbound, hattempts, hgiven⟩

/-- Any other step leaves the message to wait. -/
theorem Waits.step (ha : a.Waits gap bound id s n p since) (hpid : p.packetId = some pid)
    (honline : s.tx.isSome = true) {st : AuditStep}
    (hleaves : ∀ sec, st = .act sec → sec.leaves id s pid = true)
    (htick : ∀ now, st ≠ .act (.tick now)) (hstep : a.step st = some a') :
    a'.Waits gap bound id s n p since := by
  obtain ⟨htracks, hholder, w, hw, hwaits⟩ := ha
  obtain ⟨t, ht, hsame⟩ := Option.map_eq_some_iff.mp hholder
  obtain ⟨htracks', -⟩ := htracks.step hstep
  have hqueued : ∀ touches, Followed a a' touches id →
      (∀ hd ∈ touches id t, hd.leaves pid = true) →
      ∃ w', a'.watched id = some w' ∧ w'.Waits gap bound n p since := by
    intro touches hfollowed hall
    cases hfollowed with
    | handled t' w₀ w' ht' hbefore _ hrun hafter =>
        obtain rfl := Option.some.inj (ht.symm.trans ht')
        obtain rfl := Option.some.inj (hw.symm.trans hbefore)
        exact ⟨w', hafter, hwaits.run hpid hall hrun⟩
    | entered _ _ _ hbefore => cases hw.symm.trans hbefore
    | away hgone => cases ht.symm.trans hgone
  cases st with
  | act sec =>
      obtain ⟨hub', hact, rfl⟩ := Option.map_eq_some_iff.mp hstep
      have htouched := Hub.touched_act (htracks.consistent.lookup_eq_none (Nat.le_refl _)) hact
      refine ⟨htracks', htracks.consistent.holder_of_leaves honline hholder (hleaves sec rfl) hact,
        hqueued _ (htracks.followed htouched rfl id) ?_⟩
      refine htracks.consistent.leaves_touches honline ht hsame (hleaves sec rfl) ?_
      rintro now rfl
      exact htick now rfl
  | deadLetter k clock =>
      obtain ⟨task, htask, hrest⟩ := Option.bind_eq_some_iff.mp hstep
      obtain ⟨c, hc, hrest⟩ := Option.bind_eq_some_iff.mp hrest
      obtain ⟨hub', hletter, heq⟩ := Option.bind_eq_some_iff.mp hrest
      cases heq
      refine ⟨htracks', by rw [Hub.holder_deadLetter hletter, hholder],
        hqueued _ (htracks.followed (touched_deadLetter hletter) rfl id) ?_⟩
      exact c.leaves_touches clock.now a.hub id t pid

/-- Over a run the message is given up, or still waits when the timer came last. -/
theorem Waits.run (ha : a.Waits gap bound id s n p since) (hmax : cfg.maxAttempts < u32Bound)
    (hpid : p.packetId = some pid) (houtside : isDlqTopic p.topic = false)
    (honline : s.tx.isSome = true) {steps : List AuditStep}
    (hleaves : ∀ sec, .act sec ∈ steps → sec.leaves id s pid = true)
    (hticks : (since :: ticks steps).IsChain fun t now => t ≤ now ∧ now ≤ t + gap)
    (hrun : Machine.run Audit.step a steps = some a') :
    a'.GivesUp gap bound id n s.clientId p ∨ ∀ now ∈ since :: ticks steps, now ≤ bound := by
  induction steps generalizing a since with
  | nil =>
      obtain ⟨-, -, w, -, e, -, -, hdue, hbound⟩ := ha
      refine Or.inr fun now hnow => ?_
      obtain rfl := List.mem_singleton.mp hnow
      exact (hdue.trans e.nextDue_le_deadline).trans hbound
  | cons st rest ih =>
      obtain ⟨a₁, hfirst, hlast⟩ := Machine.run_cons_eq_some.mp hrun
      have hleaves' : ∀ sec, .act sec ∈ rest → sec.leaves id s pid = true :=
        fun sec hmem => hleaves sec (List.mem_cons_of_mem _ hmem)
      by_cases htick : ∃ now, st = .act (.tick now)
      · obtain ⟨now, rfl⟩ := htick
        obtain ⟨⟨hle, hlate⟩, hchain⟩ := List.isChain_cons_cons.mp hticks
        rcases ha.tick hmax houtside honline hlate hfirst with hwaits | hgave
        · refine (ih hwaits hleaves' hchain hlast).imp_right fun hearly now' hnow' => ?_
          rcases List.mem_cons.mp hnow' with rfl | hmem
          · exact hle.trans (hearly now List.mem_cons_self)
          · exact hearly now' hmem
        · exact Or.inl (hgave.run (ha.tracks.step hfirst).1 hlast)
      · have hother : ∀ now, st ≠ .act (.tick now) := fun now heq => htick ⟨now, heq⟩
        have hsame : ticks (st :: rest) = ticks rest := by
          refine List.filterMap_cons_none ?_
          split
          next now => exact absurd rfl (hother now)
          next => rfl
        rw [hsame] at hticks ⊢
        refine ih (ha.step hpid honline (fun sec hsec => ?_) hother hfirst) hleaves' hticks hlast
        exact hleaves sec (hsec ▸ List.mem_cons_self)

end Run

/-- A message of a client that stays online and does not confirm it is handed over to be
dead-lettered by its deadline, whatever else the broker does. -/
theorem given_up_in_time {h : Hub} (hcons : h.Consistent) (hmax : h.retry.maxAttempts < u32Bound)
    (id : ClientId) {s : Session} (hs : h.sessions.byId.lookup id = some s)
    (honline : s.tx.isSome = true) (n : Nat) (e : InflightEntry) (he : s.inflight[n]? = some e)
    (p : Publish) (hp : e.state.undelivered = some p) {pid : Nat} (hpid : p.packetId = some pid)
    (houtside : isDlqTopic p.topic = false) (gap since : Nat) (hsince : since ≤ e.nextDue)
    (steps : List AuditStep) (hleaves : ∀ sec, .act sec ∈ steps → sec.leaves id s pid = true)
    (hticks : (since :: ticks steps).IsChain fun t now => t ≤ now ∧ now ≤ t + gap)
    (now : Nat) (hnow : now ∈ ticks steps) (hlate : e.deadline h.retry gap < now)
    {a : Audit h.retry} (hrun : Machine.run step (start h) steps = some a) :
    a.GivesUp gap (e.deadline h.retry gap) id n s.clientId p := by
  have hmem : (n, e) ∈ (Watched.start h.retry s).roster.items := by
    refine List.mem_iff_getElem?.mpr ⟨n, ?_⟩
    have hlt := (List.getElem?_eq_some_iff.mp he).1
    exact List.getElem?_zip_eq_some.mpr ⟨List.getElem?_range hlt, he⟩
  have hstart : (start h).Waits gap (e.deadline h.retry gap) id s n p since := by
    refine ⟨tracks_start hcons, congrArg (Option.map _) hs, Watched.start h.retry s, ?_,
      e, hmem, hp, hsince, le_rfl⟩
    exact congrArg (Option.map _) hs
  rcases hstart.run hmax hpid houtside honline hleaves hticks hrun with hgave | hearly
  · exact hgave
  · exact absurd (hearly now (List.mem_cons_of_mem _ hnow)) (Nat.not_le.mpr hlate)

def ignoredPublish : Publish := ⟨false, false, .atLeastOnce, "t", some 1, [7], .default⟩

def ignored : List AuditStep :=
  [.act (.tick 7), .act (.tick 14), .act (.connect "d" true 0 15),
    .act (.acknowledge 1 (.puback 9)), .act (.tick 21), .act (.tick 28), .act (.tick 35),
    .act (.tick 42)]

theorem given_up_in_time_ignored :
    ∃ h a, Machine.run Hub.act (Hub.new none ⟨2, 10, 60⟩ 0 0)
        [.connect "c" true 60 0, .deliver [(1, .atLeastOnce)] "t" [7] .atLeastOnce 0] = some h ∧
      Machine.run step (start h) ignored = some a ∧ a.GivesUp 7 37 1 0 "c" ignoredPublish := by
  refine ⟨_, _, rfl, rfl, ?_⟩
  have hcons := (Hub.consistent_new none ⟨2, 10, 60⟩ 0 0).reaches
    ⟨[.connect "c" true 60 0, .deliver [(1, .atLeastOnce)] "t" [7] .atLeastOnce 0], rfl⟩
  refine given_up_in_time hcons (by decide) 1 rfl rfl 0 ⟨.qos1 ignoredPublish, 1, 10⟩ rfl
    ignoredPublish rfl rfl (by decide) 7 3 (by decide) ignored ?_ (by decide) 42 (by decide) (by decide) rfl
  intro sec hsec
  simp only [ignored, List.mem_cons, AuditStep.act.injEq, List.not_mem_nil, or_false] at hsec
  rcases hsec with rfl | rfl | rfl | rfl | rfl | rfl | rfl | rfl <;> rfl

end Audit

end Relay
