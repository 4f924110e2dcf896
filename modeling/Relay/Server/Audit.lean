import Relay.Server.Startup
import Relay.Server.Touches

/-! # All messages of the broker

The hub with every session watched, so that a message is known by the handle of its
session and its number there. A retry tick or an expiry hands dead messages to a task
that dead-letters them one after the other once the lock is released; sections of any
other operation, and other tasks, may come in between.
-/

namespace Relay

open Roster (Record)

structure Casualty where
  id : ClientId
  name : Nat
  client : String
  msg : DeadMsg
deriving DecidableEq

def Casualty.key (c : Casualty) : ClientId × Nat := (c.id, c.name)

/-- The messages given up by one section, in the order in which they are dead-lettered;
so many of them are done. -/
structure Task where
  cause : Section
  hub : Hub
  reason : String
  dead : List Casualty
  done : Nat

/-- A call of `dead_letter`. -/
structure Letter where
  task : Nat
  casualty : Casualty
  reason : String
  clock : Clock
  before : Hub
  after : Hub

/-- Watched sessions by handle, also of sessions that are gone. -/
structure Audit (cfg : RetryConfig) where
  hub : Hub
  watched : ClientId → Option (Watched cfg)
  tasks : List Task
  letters : List Letter

inductive AuditStep where
  | act (a : Section)
  | deadLetter (task : Nat) (clock : Clock)

/-- A section that may give messages up: the reason it is done for, and what it does to
their session. -/
def Section.lethal : Section → Option (String × Handling)
  | .tick now => some ("max_delivery_attempts_exceeded", .call (.tickRetries now))
  | .expire _ _ => some ("session_expired", .drain)
  | _ => none

/-- What a section hands back to be dead-lettered. -/
def Section.returned (h : Hub) : Section → List (String × DeadMsg)
  | .tick now => (h.tickAll now).1
  | .expire id generation => (h.expire id generation).1
  | _ => []

def Hub.queueOf (h : Hub) (id : ClientId) : List InflightEntry :=
  (h.sessions.byId.lookup id).elim [] Session.inflight

/-- What a dead letter does to the session under a handle: it is published. -/
def Casualty.touches (c : Casualty) (now : Nat) (h : Hub) (id : ClientId) (s : Session) :
    List Handling :=
  if isDlqTopic c.msg.publish.topic then []
  else
    let topic := Hub.dlqTopic c.client c.msg.publish.topic
    (Section.deliver (h.router.route topic).1 topic c.msg.publish.payload c.msg.publish.qos
      now).touches h id s

namespace Audit

variable {cfg : RetryConfig}

def start (h : Hub) : Audit h.retry :=
  ⟨h, fun id => (h.sessions.byId.lookup id).map (Watched.start h.retry), [], []⟩

variable (a : Audit cfg)

def deaths (hd : Handling) (id : ClientId) (s : Session) : List Casualty :=
  match a.watched id with
  | some w => (w.records hd).filterMap fun r =>
      r.note.dead.map fun msg => ⟨id, r.name, s.clientId, msg⟩
  | none => []

def casualties : Section → List Casualty
  | .tick now => a.hub.sessions.byId.entries.flatMap fun x =>
      if x.2.tx = none then [] else a.deaths (.call (.tickRetries now)) x.1 x.2
  | .expire id generation =>
      match a.hub.sessions.byId.lookup id with
      | some s => if s.generation = generation ∧ s.tx = none then a.deaths .drain id s else []
      | none => []
  | _ => []

def opened (sec : Section) : List Task :=
  (sec.lethal.map fun x => ⟨sec, a.hub, x.1, a.casualties sec, 0⟩).toList

/-- The watched sessions after a step to another hub that touched the sessions. -/
def follow (hub' : Hub) (touches : ClientId → Session → List Handling) (id : ClientId) :
    Option (Watched cfg) :=
  match a.hub.sessions.byId.lookup id with
  | some s => (a.watched id).bind fun w => Machine.run Watched.step w (touches id s)
  | none =>
      match hub'.sessions.byId.lookup id with
      | some s => some (Watched.start cfg s)
      | none => a.watched id

def step : AuditStep → Option (Audit cfg)
  | .act sec =>
      (a.hub.act sec).map fun hub' =>
        { a with
          hub := hub'
          watched := a.follow hub' fun id s => sec.touches a.hub id s
          tasks := a.tasks ++ a.opened sec }
  | .deadLetter k clock => do
      let task ← a.tasks[k]?
      let c ← task.dead[task.done]?
      let hub' ← a.hub.deadLetter c.client c.msg task.reason clock
      some
        { hub := hub'
          watched := a.follow hub' (c.touches clock.now a.hub)
          tasks := a.tasks.set k { task with done := task.done + 1 }
          letters := a.letters ++ [⟨k, c, task.reason, clock, a.hub, hub'⟩] }

/-! ## Watching follows the hub -/

/-- Every session of the table is watched. -/
structure Tracks (a : Audit cfg) : Prop where
  retry : a.hub.retry = cfg
  consistent : a.hub.Consistent
  alike : ∀ id s, a.hub.sessions.byId.lookup id = some s →
    ∃ w, a.watched id = some w ∧ w.session.Alike s
  fresh : ∀ id, a.hub.nextId ≤ id → a.watched id = none

/-- What a step does to the session under a handle: it is handled, or enters, or there is
none before and after. -/
inductive Followed (a a' : Audit cfg) (touches : ClientId → Session → List Handling)
    (id : ClientId) : Prop where
  | handled (s : Session) (w w' : Watched cfg) (there : a.hub.sessions.byId.lookup id = some s)
      (before : a.watched id = some w) (alike : w.session.Alike s)
      (run : Machine.run Watched.step w (touches id s) = some w')
      (after : a'.watched id = some w')
  | entered (clientId : String) (expirySecs generation : Nat) (before : a.watched id = none)
      (after : a'.watched id =
        some (Watched.start cfg (Session.new clientId (some []) expirySecs generation)))
  | away (gone : a.hub.sessions.byId.lookup id = none) (after : a'.watched id = a.watched id)

variable {a a' : Audit cfg}

/-- A step touches the session under each handle, or it enters, or there is none. -/
theorem Tracks.followed {touches : ClientId → Session → List Handling} (ha : a.Tracks)
    (htouched : Hub.Touched a.hub a'.hub touches) (hfollow : a'.watched = a.follow a'.hub touches)
    (id : ClientId) : Followed a a' touches id := by
  have hafter := congrFun hfollow id
  unfold follow at hafter
  cases hs : a.hub.sessions.byId.lookup id with
  | some s =>
      obtain ⟨w, hw, halike⟩ := ha.alike id s hs
      obtain ⟨t, hrun, -⟩ := htouched.handled id s hs
      rw [ha.retry] at hrun
      obtain ⟨w', hw', -⟩ := Watched.exists_run halike hrun
      rw [hs, hw] at hafter
      exact .handled s w w' hs hw halike hw' (hafter.trans hw')
  | none =>
      rw [hs] at hafter
      cases hs' : a'.hub.sessions.byId.lookup id with
      | none =>
          rw [hs'] at hafter
          exact .away hs hafter
      | some s' =>
          obtain ⟨hid, hnew⟩ := htouched.fresh id s' hs hs'
          rw [hs', hnew] at hafter
          exact .entered s'.clientId s'.expirySecs s'.generation (ha.fresh id hid) hafter

/-- The watch stays complete across a step whose touches are known. -/
theorem Tracks.of_touched {touches : ClientId → Session → List Handling} (ha : a.Tracks)
    (htouched : Hub.Touched a.hub a'.hub touches) (hfollow : a'.watched = a.follow a'.hub touches)
    (hcons : a'.hub.Consistent) (hnext : a.hub.nextId ≤ a'.hub.nextId) : a'.Tracks where
  retry := htouched.retry.trans ha.retry
  consistent := hcons
  alike id s' hs' := by
    have hafter := congrFun hfollow id
    unfold follow at hafter
    cases hs : a.hub.sessions.byId.lookup id with
    | some s =>
        obtain ⟨w, hw, halike⟩ := ha.alike id s hs
        obtain ⟨t, hrun, hkept⟩ := htouched.handled id s hs
        rw [ha.retry] at hrun
        obtain ⟨w', hw', halike'⟩ := Watched.exists_run halike hrun
        rw [hs, hw] at hafter
        exact ⟨w', hafter.trans hw', halike'.trans (hkept s' hs')⟩
    | none =>
        rw [hs, hs'] at hafter
        exact ⟨_, hafter, .refl s'⟩
  fresh id hid := by
    have hafter := congrFun hfollow id
    unfold follow at hafter
    rw [ha.consistent.lookup_eq_none (hnext.trans hid), hcons.lookup_eq_none hid] at hafter
    exact hafter.trans (ha.fresh id (hnext.trans hid))

/-- A broker that starts is watched from its first hub. -/
theorem tracks_start {h : Hub} (hcons : h.Consistent) : (start h).Tracks where
  retry := rfl
  consistent := hcons
  alike id s hs := by
    have hs' : h.sessions.byId.lookup id = some s := hs
    exact ⟨Watched.start h.retry s, by simp [start, hs'], .refl s⟩
  fresh id hid := by simp [start, hcons.lookup_eq_none hid]

inductive Stepped (a a' : Audit cfg) : Prop where
  | act (sec : Section) (act : a.hub.act sec = some a'.hub)
      (followed : ∀ id, Followed a a' (fun id s => sec.touches a.hub id s) id)
      (tasks : a'.tasks = a.tasks ++ a.opened sec) (letters : a'.letters = a.letters)
  | letter (k : Nat) (task : Task) (c : Casualty) (clock : Clock) (there : a.tasks[k]? = some task)
      (next : task.dead[task.done]? = some c)
      (sent : a.hub.deadLetter c.client c.msg task.reason clock = some a'.hub)
      (followed : ∀ id, Followed a a' (c.touches clock.now a.hub) id)
      (tasks : a'.tasks = a.tasks.set k { task with done := task.done + 1 })
      (letters : a'.letters = a.letters ++ [⟨k, c, task.reason, clock, a.hub, a'.hub⟩])

/-- A dead letter reaches sessions as the publish that it makes. -/
theorem touched_deadLetter {h h' : Hub} {c : Casualty} {reason : String} {clock : Clock}
    (hletter : h.deadLetter c.client c.msg reason clock = some h') :
    Hub.Touched h h' (c.touches clock.now h) := by
  unfold Hub.deadLetter at hletter
  split at hletter
  next hdlq =>
    cases hletter
    exact Hub.touched_of_sessions rfl rfl fun id s _ => by rw [Casualty.touches, if_pos hdlq]
  next hdlq =>
    obtain ⟨⟨n, h₁⟩, hpublish, rfl⟩ := Option.map_eq_some_iff.mp hletter
    have htouches : c.touches clock.now h = fun id s => (Section.deliver
        (h.router.route (Hub.dlqTopic c.client c.msg.publish.topic)).1
        (Hub.dlqTopic c.client c.msg.publish.topic) c.msg.publish.payload c.msg.publish.qos
        clock.now).touches h id s := by
      funext id s
      rw [Casualty.touches, if_neg hdlq]
    rw [htouches]
    exact (Hub.touched_publish hpublish).of_same rfl rfl rfl rfl rfl

/-- Every step keeps the watch complete and is one of the two kinds. -/
theorem Tracks.step (ha : a.Tracks) {st : AuditStep} (hstep : a.step st = some a') :
    a'.Tracks ∧ Stepped a a' := by
  cases st with
  | act sec =>
      obtain ⟨hub', hact, rfl⟩ := Option.map_eq_some_iff.mp hstep
      have htouched := Hub.touched_act (ha.consistent.lookup_eq_none (Nat.le_refl _)) hact
      have heffect := Hub.act_effect hact
      exact ⟨ha.of_touched htouched rfl (ha.consistent.effect heffect) heffect.nextId_le,
        .act sec hact (ha.followed htouched rfl) rfl rfl⟩
  | deadLetter k clock =>
      obtain ⟨task, htask, hrest⟩ := Option.bind_eq_some_iff.mp hstep
      obtain ⟨c, hc, hrest⟩ := Option.bind_eq_some_iff.mp hrest
      obtain ⟨hub', hletter, heq⟩ := Option.bind_eq_some_iff.mp hrest
      cases heq
      have htouched := touched_deadLetter hletter
      have hreaches := Hub.reaches_deadLetter hletter
      exact ⟨ha.of_touched htouched rfl (ha.consistent.reaches hreaches)
          (Hub.nextId_le_of_reaches hreaches),
        .letter k task c clock htask hc hletter (ha.followed htouched rfl) rfl rfl⟩

/-! ## Messages that are given up -/

/-- A message is given up where a record of the handling says so. -/
theorem mem_deaths_iff {hd : Handling} {id : ClientId} {s : Session} {c : Casualty} :
    c ∈ a.deaths hd id s ↔ ∃ w, a.watched id = some w ∧ ∃ r ∈ w.records hd,
      ∃ msg, r.note.dead = some msg ∧ c = ⟨id, r.name, s.clientId, msg⟩ := by
  unfold deaths
  cases a.watched id with
  | none => simp
  | some w => simp [eq_comm]

/-- The messages that a section gives up are those that it touches lethally. -/
theorem mem_casualties_iff {sec : Section} {c : Casualty} :
    c ∈ a.casualties sec ↔ ∃ s reason hd, a.hub.sessions.byId.lookup c.id = some s ∧
      sec.lethal = some (reason, hd) ∧ sec.touches a.hub c.id s = [hd] ∧
      c ∈ a.deaths hd c.id s := by
  cases sec with
  | tick now =>
      simp only [casualties, List.mem_flatMap, Section.lethal, Option.some.injEq, Prod.mk.injEq]
      constructor
      · rintro ⟨⟨id, s⟩, hmem, hc⟩
        split at hc
        · cases hc
        next honline =>
          obtain ⟨w, hw, r, hr, msg, hmsg, rfl⟩ := mem_deaths_iff.mp hc
          refine ⟨s, _, _, AssocMap.mem_entries_iff.mp hmem, ⟨rfl, rfl⟩, ?_, hc⟩
          rw [Section.touches, if_neg honline]
      · rintro ⟨s, reason, hd, hs, ⟨rfl, rfl⟩, htouches, hc⟩
        refine ⟨⟨c.id, s⟩, AssocMap.mem_entries_iff.mpr hs, ?_⟩
        rw [Section.touches] at htouches
        split at htouches
        · cases htouches
        next honline =>
          rw [if_neg honline]
          exact hc
  | expire id generation =>
      simp only [casualties, Section.lethal, Option.some.injEq, Prod.mk.injEq]
      constructor
      · intro hc
        split at hc
        next s hs =>
          split at hc
          next hexpired =>
            obtain ⟨w, hw, r, hr, msg, hmsg, rfl⟩ := mem_deaths_iff.mp hc
            refine ⟨s, _, _, hs, ⟨rfl, rfl⟩, ?_, hc⟩
            rw [Section.touches, if_pos ⟨rfl, hexpired⟩]
          next => cases hc
        next => cases hc
      · rintro ⟨s, reason, hd, hs, ⟨rfl, rfl⟩, htouches, hc⟩
        rw [Section.touches] at htouches
        split at htouches
        next hexpired =>
          obtain ⟨rfl, hexpired⟩ := hexpired
          rw [hs]
          dsimp only
          rw [if_pos hexpired]
          exact hc
        next => cases htouches
  | _ => simp [casualties, Section.lethal]

/-- A task has what its section handed back. -/
theorem Tracks.returned (ha : a.Tracks) (sec : Section) :
    (a.casualties sec).map (fun c => (c.client, c.msg)) = sec.returned a.hub := by
  -- the dead messages of one session are those that the session's own function returns
  have hdeaths : ∀ id s hd s' dead, a.hub.sessions.byId.lookup id = some s →
      s.handle cfg hd = some (s', dead) →
      (a.deaths hd id s).map (fun c => (c.client, c.msg)) = dead.map fun msg => (s.clientId, msg) := by
    intro id s hd s' dead hs hhandle
    obtain ⟨w, hw, halike⟩ := ha.alike id s hs
    obtain ⟨t', hwatched, -⟩ := halike.symm.handle hhandle
    have hdied : (w.records hd).filterMap (fun r => r.note.dead) = dead :=
      (Watched.turn hwatched).died
    simp only [deaths, hw, ← hdied, List.map_filterMap, Option.map_map, Function.comp_def]
  cases sec with
  | tick now =>
      simp only [casualties, Section.returned, Hub.tickAll, AssocMap.values, List.map_flatMap,
        List.flatMap_map, List.map_map]
      refine List.flatMap_congr fun x hx => ?_
      obtain ⟨id, s⟩ := x
      have hs := AssocMap.mem_entries_iff.mp hx
      simp only [Function.comp_apply, Hub.tickSession]
      split
      · rfl
      · rw [ha.retry]
        exact hdeaths id s _ _ _ hs rfl
  | expire id generation =>
      simp only [casualties, Section.returned, Hub.expire]
      cases hs : a.hub.sessions.byId.lookup id with
      | none => rfl
      | some s =>
          dsimp only
          split
          · exact hdeaths id s _ _ _ hs rfl
          · rfl
  | _ => rfl

/-- The session of the message has a turn that gave it up. -/
def Gave (a : Audit cfg) (hd : Handling) (c : Casualty) : Prop :=
  ∃ w, a.watched c.id = some w ∧ ∃ t ∈ w.turns, t.handling = hd ∧
    ∃ r ∈ t.records, r.name = c.name ∧ r.note.dead = some c.msg

/-- Turns are only ever appended. -/
theorem turns_of_run {w w' : Watched cfg} {handlings : List Handling}
    (hrun : Machine.run Watched.step w handlings = some w') :
    ∃ more, w'.turns = w.turns ++ more := by
  have hmore : ∀ (v : Watched cfg) hd v', (∃ more, v.turns = w.turns ++ more) →
      v.step hd = some v' → ∃ more, v'.turns = w.turns ++ more := by
    rintro v hd v' ⟨more, hmore⟩ hstep
    obtain ⟨s', dead, hhandle, rfl⟩ := Watched.exists_of_step hstep
    refine ⟨more ++ [Watched.turn hhandle], ?_⟩
    rw [← List.append_assoc, ← hmore]
    rfl
  exact Machine.run_invariant hmore ⟨[], (List.append_nil _).symm⟩ hrun

theorem Stepped.followed (hstep : Stepped a a') (id : ClientId) :
    ∃ touches, Followed a a' touches id := by
  cases hstep with
  | act sec _ hfollowed => exact ⟨_, hfollowed id⟩
  | letter k task c clock _ _ _ hfollowed => exact ⟨_, hfollowed id⟩

/-- What a turn did stays on record. -/
theorem Gave.step {hd : Handling} {c : Casualty} (hgave : a.Gave hd c) (hstep : Stepped a a') :
    a'.Gave hd c := by
  obtain ⟨w, hw, t, ht, hrest⟩ := hgave
  obtain ⟨touches, hfollowed⟩ := hstep.followed c.id
  cases hfollowed with
  | handled s w₀ w' _ hbefore _ hrun hafter =>
      obtain rfl := Option.some.inj (hw.symm.trans hbefore)
      obtain ⟨more, hmore⟩ := turns_of_run hrun
      exact ⟨w', hafter, t, hmore ▸ List.mem_append_left _ ht, hrest⟩
  | entered _ _ _ hbefore => cases hw.symm.trans hbefore
  | away _ hafter => exact ⟨w, hafter.trans hw, t, ht, hrest⟩

/-- A section leaves behind only messages that their sessions gave up in it. -/
theorem gave_of_act {sec : Section} {reason : String} {hd : Handling}
    (hlethal : sec.lethal = some (reason, hd))
    (hfollowed : ∀ id, Followed a a' (fun id s => sec.touches a.hub id s) id) {c : Casualty}
    (hc : c ∈ a.casualties sec) : a'.Gave hd c := by
  obtain ⟨s, reason', hd', hs, hlethal', htouches, hdeath⟩ := mem_casualties_iff.mp hc
  cases hlethal.symm.trans hlethal'
  obtain ⟨w, hw, r, hr, msg, hmsg, hkey⟩ := mem_deaths_iff.mp hdeath
  cases hfollowed c.id with
  | handled t w₀ w' ht hbefore _ hrun hafter =>
      obtain rfl := Option.some.inj (hw.symm.trans hbefore)
      obtain rfl := Option.some.inj (hs.symm.trans ht)
      rw [htouches] at hrun
      obtain ⟨w₁, hstep, hlast⟩ := Machine.run_cons_eq_some.mp hrun
      cases hlast
      obtain ⟨s', dead, hhandle, rfl⟩ := Watched.exists_of_step hstep
      refine ⟨_, hafter, Watched.turn hhandle, List.mem_append_right _ (List.mem_singleton_self _),
        rfl, r, hr, ?_, ?_⟩
      · rw [hkey]
      · rw [hmsg, hkey]
  | entered _ _ _ hbefore => cases hw.symm.trans hbefore
  | away hgone => cases hs.symm.trans hgone

/-- A task has what its section handed back, and every message of it was given up in the
section. -/
structure Filed (a : Audit cfg) (task : Task) : Prop where
  returned : task.dead.map (fun c => (c.client, c.msg)) = task.cause.returned task.hub
  given : ∃ hd, task.cause.lethal = some (task.reason, hd) ∧ ∀ c ∈ task.dead, a.Gave hd c

/-- Later steps do not unmake a task. -/
theorem Filed.step {task : Task} (htask : a.Filed task) (hstep : Stepped a a') : a'.Filed task := by
  obtain ⟨hreturned, hd, hlethal, hgave⟩ := htask
  exact ⟨hreturned, hd, hlethal, fun c hc => (hgave c hc).step hstep⟩

theorem mem_opened_iff {sec : Section} {task : Task} :
    task ∈ a.opened sec ↔ ∃ reason hd, sec.lethal = some (reason, hd) ∧
      task = ⟨sec, a.hub, reason, a.casualties sec, 0⟩ := by
  rw [opened, Option.mem_toList, Option.map_eq_some_iff]
  constructor
  · rintro ⟨⟨reason, hd⟩, hlethal, rfl⟩
    exact ⟨reason, hd, hlethal, rfl⟩
  · rintro ⟨reason, hd, hlethal, rfl⟩
    exact ⟨(reason, hd), hlethal, rfl⟩

/-- All tasks stay filed. -/
theorem Tracks.filed (ha : a.Tracks) (hfiled : ∀ task ∈ a.tasks, a.Filed task)
    (hstep : Stepped a a') : ∀ task ∈ a'.tasks, a'.Filed task := by
  intro task htask
  have hold : ∀ task ∈ a.tasks, a'.Filed task := fun task hmem => (hfiled task hmem).step hstep
  cases hstep with
  | act sec _ hfollowed htasks =>
      rw [htasks] at htask
      rcases List.mem_append.mp htask with hmem | hnew
      · exact hold task hmem
      · obtain ⟨reason, hd, hlethal, rfl⟩ := mem_opened_iff.mp hnew
        exact ⟨ha.returned sec, hd, hlethal, fun c => gave_of_act hlethal hfollowed⟩
  | letter k task₀ c clock hthere _ _ _ htasks =>
      rw [htasks] at htask
      rcases List.mem_or_eq_of_mem_set htask with hmem | rfl
      · exact hold task hmem
      · obtain ⟨hreturned, hgiven⟩ := hold task₀ (List.mem_of_getElem? hthere)
        exact ⟨hreturned, hgiven⟩

/-! ## The operations as runs -/

/-- Snapshots can be queued without opening a task. -/
theorem exists_run_writeAll (a : Audit cfg) (snapshots : List (String × Bytes)) :
    ∃ steps a', Machine.run Audit.step a steps = some a' ∧ a'.hub = a.hub.writeAll snapshots ∧
      a'.tasks = a.tasks := by
  induction snapshots generalizing a with
  | nil => exact ⟨[], a, rfl, rfl, rfl⟩
  | cons snapshot rest ih =>
      obtain ⟨a₁, hfirst, hhub, htasks⟩ : ∃ a₁, a.step (.act (.enqueue
          (.putInflight snapshot.1 snapshot.2))) = some a₁ ∧
          a₁.hub = a.hub.writeInflight snapshot ∧ a₁.tasks = a.tasks :=
        ⟨_, rfl, rfl, List.append_nil _⟩
      obtain ⟨steps, a', hrun, hhub', htasks'⟩ := ih a₁
      refine ⟨_ :: steps, a', Machine.run_cons_eq_some.mpr ⟨a₁, hfirst, hrun⟩, ?_,
        htasks'.trans htasks⟩
      rw [hhub', hhub]
      rfl

/-- The rest of a task, done to its end. -/
theorem exists_run_deadLetterAll {k : Nat} {task : Task} (hthere : a.tasks[k]? = some task)
    {rest : List Casualty} (hrest : task.dead.drop task.done = rest) {clock : Nat → Clock} {h' : Hub}
    (hdead : a.hub.deadLetterAll task.reason (rest.map fun c => (c.client, c.msg)) clock = some h') :
    ∃ steps a', Machine.run Audit.step a steps = some a' ∧ a'.hub = h' ∧
      a'.tasks = a.tasks.set k { task with done := task.done + rest.length } := by
  induction rest generalizing a task clock with
  | nil =>
      cases hdead
      refine ⟨[], a, rfl, rfl, ?_⟩
      obtain ⟨hlt, rfl⟩ := List.getElem?_eq_some_iff.mp hthere
      exact (List.set_getElem_self hlt).symm
  | cons c rest ih =>
      obtain ⟨h₁, hfirst, hlast⟩ := Option.bind_eq_some_iff.mp hdead
      have hnext : task.dead[task.done]? = some c := by
        rw [← List.head?_drop, hrest]
        rfl
      have hlt := (List.getElem?_eq_some_iff.mp hthere).1
      obtain ⟨a₁, hstep, rfl, htasks⟩ : ∃ a₁, a.step (.deadLetter k (clock 0)) = some a₁ ∧
          a₁.hub = h₁ ∧ a₁.tasks = a.tasks.set k { task with done := task.done + 1 } := by
        refine ⟨⟨h₁, a.follow h₁ (c.touches (clock 0).now a.hub),
          a.tasks.set k { task with done := task.done + 1 },
          a.letters ++ [⟨k, c, task.reason, clock 0, a.hub, h₁⟩]⟩, ?_, rfl, rfl⟩
        simp only [Audit.step, hthere, Option.bind_eq_bind, Option.bind_some, hnext, hfirst]
      have hthere₁ : a₁.tasks[k]? = some { task with done := task.done + 1 } := by
        rw [htasks, List.getElem?_set_self hlt]
      have hrest₁ : task.dead.drop (task.done + 1) = rest := by
        rw [← List.tail_drop, hrest, List.tail_cons]
      obtain ⟨steps, a', hrun, hhub, htasks'⟩ := ih hthere₁ hrest₁ hlast
      refine ⟨_ :: steps, a', Machine.run_cons_eq_some.mpr ⟨a₁, hstep, hrun⟩, hhub, ?_⟩
      rw [htasks', htasks, List.set_set, List.length_cons, Nat.add_comm rest.length, ← Nat.add_assoc]

/-- A section, its snapshots, and then the dead letters of what it handed back. -/
theorem Tracks.exists_run (ha : a.Tracks) {sec : Section} {reason : String} {hd : Handling}
    (hlethal : sec.lethal = some (reason, hd)) {h₁ h' : Hub} (hact : a.hub.act sec = some h₁)
    (snapshots : List (String × Bytes)) {clock : Nat → Clock}
    (hdead : (h₁.writeAll snapshots).deadLetterAll reason (sec.returned a.hub) clock = some h') :
    ∃ steps a' task, Machine.run Audit.step a steps = some a' ∧ a'.hub = h' ∧
      a'.tasks = a.tasks ++ [task] ∧ task.cause = sec ∧ task.hub = a.hub ∧
        task.done = task.dead.length := by
  obtain ⟨a₁, hstep, rfl, htasks⟩ : ∃ a₁, a.step (.act sec) = some a₁ ∧ a₁.hub = h₁ ∧
      a₁.tasks = a.tasks ++ [⟨sec, a.hub, reason, a.casualties sec, 0⟩] := by
    refine ⟨_, by rw [Audit.step, hact, Option.map_some], rfl, ?_⟩
    rw [opened, hlethal]
    rfl
  obtain ⟨writes, a₂, hwrites, hhub₂, htasks₂⟩ := a₁.exists_run_writeAll snapshots
  have hthere : a₂.tasks[a.tasks.length]? = some ⟨sec, a.hub, reason, a.casualties sec, 0⟩ := by
    rw [htasks₂, htasks, List.getElem?_concat_length]
  rw [← hhub₂, ← ha.returned] at hdead
  obtain ⟨letters, a₃, hletters, hhub₃, htasks₃⟩ := exists_run_deadLetterAll hthere rfl hdead
  refine ⟨.act sec :: (writes ++ letters), a₃,
    ⟨sec, a.hub, reason, a.casualties sec, (a.casualties sec).length⟩,
    Machine.run_cons_eq_some.mpr ⟨a₁, hstep, (Machine.run_append hwrites).trans hletters⟩, hhub₃, ?_,
    rfl, rfl, rfl⟩
  rw [htasks₃, htasks₂, htasks, List.set_append_right _ _ (Nat.le_refl _), Nat.sub_self,
    List.set_cons_zero, Nat.zero_add]
  rfl

/-- The retry timer leaves one more task, and finishes it. -/
theorem Tracks.exists_run_runRetries (ha : a.Tracks) {clock : Nat → Clock} {h' : Hub}
    (hretries : a.hub.runRetries clock = some h') :
    ∃ steps a' task, Machine.run Audit.step a steps = some a' ∧ a'.hub = h' ∧
      a'.tasks = a.tasks ++ [task] ∧ task.cause = .tick (clock 0).now ∧ task.hub = a.hub ∧
        task.done = task.dead.length :=
  ha.exists_run rfl rfl _ hretries

/-- So does the purge of a session. -/
theorem Tracks.exists_run_purgeIfIdle (ha : a.Tracks) {id : ClientId} {generation : Nat}
    {clock : Nat → Clock} {h' : Hub} (hpurge : a.hub.purgeIfIdle id generation clock = some h') :
    ∃ steps a' task, Machine.run Audit.step a steps = some a' ∧ a'.hub = h' ∧
      a'.tasks = a.tasks ++ [task] ∧ task.cause = .expire id generation ∧ task.hub = a.hub ∧
        task.done = task.dead.length :=
  ha.exists_run rfl rfl [] hpurge

/-- Any other operation is a run of sections. -/
theorem exists_run_of_reaches {h' : Hub} (hreaches : a.hub.Reaches h') :
    ∃ steps a', Machine.run Audit.step a steps = some a' ∧ a'.hub = h' := by
  obtain ⟨sections, hrun⟩ := hreaches
  induction sections generalizing a with
  | nil =>
      cases hrun
      exact ⟨[], a, rfl, rfl⟩
  | cons sec rest ih =>
      obtain ⟨h₁, hact, hrest⟩ := Machine.run_cons_eq_some.mp hrun
      obtain ⟨a₁, hstep, rfl⟩ : ∃ a₁, a.step (.act sec) = some a₁ ∧ a₁.hub = h₁ :=
        ⟨_, by rw [Audit.step, hact, Option.map_some], rfl⟩
      obtain ⟨steps, a', hsteps, hhub⟩ := ih hrest
      exact ⟨.act sec :: steps, a', Machine.run_cons_eq_some.mpr ⟨a₁, hstep, hsteps⟩, hhub⟩

end Audit

/-! ## Every watched session -/

/-- What every section keeps between the session that a watch began with and the watch. -/
structure Watched.Kept {cfg : RetryConfig} (I : Session → Watched cfg → Prop) : Prop where
  start : ∀ s : Session, (s.tx.isSome = true → s.inflight = []) → I s (.start cfg s)
  touched : ∀ (s t : Session) (w w' : Watched cfg) (sec : Section) (h : Hub) (id : ClientId),
    I s w → w.session.Alike t → Machine.run Watched.step w (sec.touches h id t) = some w' → I s w'

namespace Audit

variable {cfg : RetryConfig}

/-- It holds of every watched session, the queue of the first hub being the one that the
watch began with. -/
structure Each (I : Session → Watched cfg → Prop) (h₀ : Hub) (a : Audit cfg) : Prop where
  started : ∀ id s, h₀.sessions.byId.lookup id = some s → a.watched id ≠ none
  each : ∀ id w, a.watched id = some w → ∃ s, s.inflight = h₀.queueOf id ∧ I s w

variable {I : Session → Watched cfg → Prop} {h₀ : Hub} {a a' : Audit cfg}

/-- At startup all sessions are offline. -/
theorem each_start {h : Hub} {I : Session → Watched h.retry → Prop} (hkept : Watched.Kept I)
    (hoffline : ∀ id s, h.sessions.byId.lookup id = some s → s.tx = none) :
    (start h).Each I h where
  started id s hs := by simp [start, hs]
  each id w hw := by
    obtain ⟨s, hs, rfl⟩ := Option.map_eq_some_iff.mp hw
    refine ⟨s, by rw [Hub.queueOf, hs, Option.elim_some], hkept.start s fun honline => ?_⟩
    rw [hoffline id s hs] at honline
    cases honline

theorem Each.followed (hkept : Watched.Kept I) (ha : a.Each I h₀)
    {touches : ClientId → Session → List Handling}
    (htouched : ∀ (s t : Session) (w w' : Watched cfg) (id : ClientId), I s w →
      w.session.Alike t → Machine.run Watched.step w (touches id t) = some w' → I s w')
    (hfollowed : ∀ id, Followed a a' touches id) : a'.Each I h₀ where
  started id s hs := by
    have hthere := ha.started id s hs
    cases hfollowed id with
    | handled _ _ w' _ _ _ _ hafter => simp [hafter]
    | entered _ _ _ _ hafter => simp [hafter]
    | away _ hafter => rwa [hafter]
  each id w hw := by
    cases hfollowed id with
    | handled t w₀ w' _ hbefore halike hrun hafter =>
        obtain rfl := Option.some.inj (hw.symm.trans hafter)
        obtain ⟨s, hqueue, hs⟩ := ha.each id w₀ hbefore
        exact ⟨s, hqueue, htouched s t w₀ w id hs halike hrun⟩
    | entered clientId expirySecs generation hbefore hafter =>
        obtain rfl := Option.some.inj (hw.symm.trans hafter)
        refine ⟨_, ?_, hkept.start _ fun _ => rfl⟩
        -- a session of the first hub would be watched
        cases hs : h₀.sessions.byId.lookup id with
        | none => rw [Hub.queueOf, hs]; rfl
        | some s => exact absurd hbefore (ha.started id s hs)
    | away _ hafter => exact ha.each id w (hafter.symm.trans hw)

/-- What sections keep for one session holds of all watched ones after a step. -/
theorem Each.step (hkept : Watched.Kept I) (ha : a.Each I h₀) (hstep : Stepped a a') :
    a'.Each I h₀ := by
  cases hstep with
  | act sec _ hfollowed =>
      exact ha.followed hkept (fun s t w w' id => hkept.touched s t w w' sec a.hub id) hfollowed
  | letter k task c clock _ _ _ hfollowed =>
      refine ha.followed hkept (fun s t w w' id hw halike hrun => ?_) hfollowed
      unfold Casualty.touches at hrun
      split at hrun
      · cases hrun
        exact hw
      · exact hkept.touched s t w w' _ _ _ hw halike hrun

end Audit

/-- Startup attaches no connection. -/
theorem Hub.offline_new (storage : Option Storage) (retry : RetryConfig) (eventLogMax now : Nat)
    (id : ClientId) (s : Session)
    (hs : (new storage retry eventLogMax now).sessions.byId.lookup id = some s) : s.tx = none := by
  cases storage with
  | none => cases hs
  | some st =>
      rw [(rebuilt_new st retry eventLogMax now).byId] at hs
      obtain ⟨ps, -, rfl⟩ := Option.map_eq_some_iff.mp hs
      have hholder := congrArg Holder.online (holder_restoreSession st retry now ps)
      exact Option.isSome_eq_false_iff.mp hholder |> Option.isNone_iff_eq_none.mp

end Relay
