import Relay.Server.Attempts
import Relay.Server.Ghosts
import Relay.Server.WorkQueue

/-! # Channels whose receiver is gone

A session sends to the channel that its last CONNECT made, and the handler of that CONNECT
has the receiver. A second CONNECT on the connection overwrites the receiver with the new
one, so that the session of another client is left with a channel that takes nothing, and
neither the session nor the retry timer notices: its messages are sent, counted as attempts
and given up, though no channel ever took them. Here the messages of all sessions are
watched together with the connections, and every transmission is counted only if a handler
had the receiver. As long as connections keep to one client, the timer gives no message up
before channels took it as often as the policy has attempts.
-/

namespace Relay

open Roster (Record)

/-- `RetryConfig::default`, in nanoseconds. -/
def RetryConfig.default : RetryConfig := ⟨5, 5000000000, 60000000000⟩

/-! ## Receivers -/

/-- The channel whose receiver the handler has. Channels go by the generation of the CONNECT
that made them: the handler takes over generation and receiver together, and so drops the
receiver that it had before. -/
def Conn.channel (conn : Conn) : Option Nat := conn.sessionId.map fun _ => conn.generation

namespace Broker

/-- The session has a channel and no handler has the receiver: what it sends is lost. -/
def deaf (b : Broker) (id : ClientId) : Bool :=
  match b.hub.sessions.byId.lookup id with
  | some s => s.tx.isSome && b.conns.values.all fun conn => conn.channel ≠ some s.generation
  | none => false

/-- A session that an open connection regards as its own is heard. -/
theorem Attached.not_deaf {b : Broker} (hattached : b.Attached) (id : ClientId) :
    b.deaf id = false := by
  unfold deaf
  cases hs : b.hub.sessions.byId.lookup id with
  | none => rfl
  | some s =>
      refine Bool.eq_false_iff.mpr fun hlost => ?_
      rw [Bool.and_eq_true, List.all_eq_true] at hlost
      obtain ⟨c, hc⟩ := hattached id s.holder (congrArg (Option.map Session.holder) hs) hlost.1
      obtain ⟨conn, hconn, hid, hgeneration⟩ := handle_eq_some_iff.mp hc
      have hother := of_decide_eq_true (hlost.2 conn (AssocMap.mem_values_iff.mpr ⟨c, hconn⟩))
      rw [Conn.channel, hid, Option.map_some, hgeneration] at hother
      exact hother rfl

end Broker

/-! ## The sections of broker steps -/

def Conn.farewell (conn : Conn) : Option Section :=
  conn.sessionId.map fun id => .detach id conn.generation

namespace Broker

/-- The section of the hub in which a step of the broker concerns sessions. -/
def section? (b : Broker) : BrokerStep → Option Section
  | .connect c packet auth now => do
      let conn ← b.conns.lookup c
      if ∃ acl ∈ auth, packet.will.all fun w => acl.canPublish w.topic then
        some (.connect (packet.session conn.peer).1 (packet.session conn.peer).2
          packet.expirySecs now)
      else conn.farewell
  | .close c => (b.conns.lookup c).bind Conn.farewell
  | .background a => some a
  | _ => none

variable {b b' : Broker} {st : BrokerStep}

theorem Leaves.section_eq {c : Nat} {conn : Conn} (hconn : b.conns.lookup c = some conn)
    (hleaves : Leaves c conn st) : b.section? st = conn.farewell := by
  cases hleaves with
  | @refused packet auth now hdenied =>
      have hnone : ¬ ∃ acl ∈ auth, packet.will.all fun w => acl.canPublish w.topic := by
        rintro ⟨acl, hacl, hallowed⟩
        exact hdenied acl hacl hallowed
      simp only [section?, hconn, Option.bind_eq_bind, Option.bind_some, if_neg hnone]
  | subscribe hearly => simp [section?, Conn.farewell, hearly]
  | unsubscribe hearly => simp [section?, Conn.farewell, hearly]
  | close => simp [section?, hconn]

/-- A step is its section, or it leaves sessions and settings alone. -/
theorem act_of_step (hstep : b.step st = some b') :
    (∃ sec, b.section? st = some sec ∧ b.hub.act sec = some b'.hub) ∨
      b.section? st = none ∧ b'.hub.sessions = b.hub.sessions ∧ b'.hub.nextId = b.hub.nextId ∧
        b'.hub.retry = b.hub.retry := by
  cases stepped_of_step hstep with
  | accept => exact Or.inr ⟨rfl, rfl, rfl, rfl⟩
  | @connect c packet acl now conn out hconn hallowed hhub =>
      refine Or.inl ⟨.connect (packet.session conn.peer).1 (packet.session conn.peer).2
        packet.expirySecs now, ?_, ?_⟩
      · have hsome : ∃ acl' ∈ some acl, packet.will.all fun w => acl'.canPublish w.topic :=
          ⟨acl, rfl, hallowed⟩
        simp only [section?, hconn, Option.bind_eq_bind, Option.bind_some, if_pos hsome]
      · rw [Hub.act, hhub]
        rfl
  | @subscribe c raw qos conn id hconn hid =>
      refine Or.inr ⟨rfl, ?_⟩
      have hpersist (router : Router) : ∀ h : Hub,
          h = Hub.persistSubscription { b.hub with router := router } id raw (min qos maxQos) →
          h.sessions = b.hub.sessions ∧ h.nextId = b.hub.nextId ∧ h.retry = b.hub.retry := by
        rintro h rfl
        unfold Hub.persistSubscription
        split <;> exact ⟨rfl, rfl, rfl⟩
      dsimp only
      unfold Conn.subscribeOne
      dsimp only
      split
      · exact ⟨rfl, rfl, rfl⟩
      · split
        · exact hpersist _ _ rfl
        · split
          · exact hpersist _ _ rfl
          · exact ⟨rfl, rfl, rfl⟩
  | @unsubscribe c raw conn id hconn hid =>
      refine Or.inr ⟨rfl, ?_⟩
      simp only [Hub.unsubscribe, Hub.forgetSubscription]
      split <;> exact ⟨rfl, rfl, rfl⟩
  | @finish _ c conn access hconn hleaves =>
      rw [hleaves.section_eq hconn, Conn.farewell, finish]
      cases conn.sessionId with
      | none => exact Or.inr ⟨rfl, rfl, rfl, rfl⟩
      | some id => exact Or.inl ⟨_, rfl, rfl⟩
  | background _ hact => exact Or.inl ⟨_, rfl, hact⟩

end Broker

/-! ## Watching the connections too -/

/-- The time of the tick that a task is from. -/
def Task.tick? (task : Task) : Option Nat :=
  match task.cause with
  | .tick now => some now
  | _ => none

theorem Task.cause_of_tick {task : Task} {now : Nat} (htick : task.tick? = some now) :
    task.cause = .tick now := by
  unfold tick? at htick
  split at htick
  next hcause =>
    cases htick
    exact hcause
  next => cases htick

/-- What a step adds to the records of the session under a handle. -/
def Audit.news {cfg : RetryConfig} (a a' : Audit cfg) (id : ClientId) :
    List (Record InflightEntry Trace) :=
  match a.watched id, a'.watched id with
  | some w, some w' => w'.history.drop w.history.length
  | _, _ => []

/-- The watched sessions and the open connections, with the records whose packets a channel
took. -/
structure Traffic (cfg : RetryConfig) where
  audit : Audit cfg
  conns : AssocMap Nat Conn
  limit : Nat
  taken : ClientId → List (Record InflightEntry Trace)

inductive TrafficStep where
  | broker (st : BrokerStep)
  | deadLetter (task : Nat) (clock : Clock)

namespace Traffic

variable {cfg : RetryConfig}

def start (h : Hub) (limit : Nat) : Traffic h.retry := ⟨.start h, ∅, limit, fun _ => []⟩

def broker (t : Traffic cfg) : Broker := ⟨t.audit.hub, t.conns, t.limit⟩

/-- The state after a step. What a session sends in a step goes to the channel that it has
afterwards: a resume attaches the new channel first, and a detach sends nothing. -/
def after (t : Traffic cfg) (audit : Audit cfg) (conns : AssocMap Nat Conn) : Traffic cfg where
  audit := audit
  conns := conns
  limit := t.limit
  taken id :=
    if Broker.deaf ⟨audit.hub, conns, t.limit⟩ id then t.taken id
    else t.taken id ++ t.audit.news audit id

def follow (t : Traffic cfg) (b : Broker) : Option Section → Option (Audit cfg)
  | some sec => t.audit.step (.act sec)
  | none => some { t.audit with hub := b.hub }

def step (t : Traffic cfg) : TrafficStep → Option (Traffic cfg)
  | .broker st => do
      let b ← t.broker.step st
      let audit ← t.follow b (t.broker.section? st)
      some (t.after audit b.conns)
  | .deadLetter k clock => do
      let audit ← t.audit.step (.deadLetter k clock)
      some (t.after audit t.conns)

/-- How often a channel took a PUBLISH of a message. -/
def handed (t : Traffic cfg) (id : ClientId) (n : Nat) : Nat :=
  (publishesOf ((t.taken id).filter (·.name = n))).length

/-- A CONNECT that a connection accepts while it still holds a session is for the client of
that session. -/
def KeepsClient (t : Traffic cfg) : TrafficStep → Prop
  | .broker st => t.broker.Keeps (t.broker.accepted? st)
  | .deadLetter .. => True

/-- The sessions of the hub are watched, the tasks of the timer have what the timer
returned, and channels took every message among them as often as it takes to give it up. -/
structure Patient (h₀ : Hub) (t : Traffic cfg) : Prop where
  alike : ∀ id s, t.audit.hub.sessions.byId.lookup id = some s →
    ∃ w, t.audit.watched id = some w ∧ w.session.Alike s
  returned : ∀ task ∈ t.audit.tasks, ∀ now, task.cause = .tick now →
    task.dead.map (fun c => (c.client, c.msg)) = (task.hub.tickAll now).1
  spent : ∀ task ∈ t.audit.tasks, ∀ now, task.cause = .tick now → ∀ c ∈ task.dead,
    Audit.Spent cfg h₀ c (t.handed c.id c.name) ∧
      ∃ w, t.audit.watched c.id = some w ∧ ∃ turn ∈ w.turns,
        turn.handling = .call (.tickRetries now) ∧
          ∃ r ∈ turn.records, r.name = c.name ∧ r.note.dead = some c.msg

/-! ## Everything is taken -/

structure Watching (h₀ : Hub) (a : Audit cfg) : Prop where
  tracks : a.Tracks
  filed : ∀ task ∈ a.tasks, a.Filed task
  steady : a.Each (fun s w => w.Steady s) h₀

/-- The records of a watch are continued. -/
structure Continues (a a' : Audit cfg) (id : ClientId) : Prop where
  old : ∀ w, a.watched id = some w →
    ∃ w' more, a'.watched id = some w' ∧ w'.history = w.history ++ more
  new : a.watched id = none → ∀ w', a'.watched id = some w' → w'.history = []

variable {h₀ : Hub} {a a' : Audit cfg} {t t' : Traffic cfg}

theorem continues_of_eq {id : ClientId} (hsame : a'.watched id = a.watched id) :
    Continues a a' id where
  old w hw := ⟨w, [], hsame.trans hw, (List.append_nil _).symm⟩
  new hnone w' hw' := by
    rw [hsame, hnone] at hw'
    cases hw'

/-- A step of the audit appends to the records of a watch. -/
theorem continues_of_stepped (hstep : Audit.Stepped a a') (id : ClientId) : Continues a a' id := by
  obtain ⟨touches, hfollowed⟩ := hstep.followed id
  cases hfollowed with
  | handled s w w' _ hbefore _ hrun hafter =>
      obtain ⟨more, hmore⟩ := Audit.turns_of_run hrun
      constructor
      · intro w₀ hw₀
        obtain rfl := Option.some.inj (hw₀.symm.trans hbefore)
        refine ⟨w', more.flatMap Turn.records, hafter, ?_⟩
        rw [Watched.history, hmore, List.flatMap_append]
        rfl
      · intro hnone
        cases hnone.symm.trans hbefore
  | entered clientId expirySecs generation hbefore hafter =>
      constructor
      · intro w hw
        cases hbefore.symm.trans hw
      · intro _ w' hw'
        cases hafter.symm.trans hw'
        rfl
  | away _ hafter => exact continues_of_eq hafter

/-- What was on record, and what a step adds. -/
theorem Continues.history_eq {id : ClientId} (hcontinues : Continues a a' id) :
    (a'.watched id).elim [] Watched.history =
      (a.watched id).elim [] Watched.history ++ a.news a' id := by
  unfold Audit.news
  cases hw : a.watched id with
  | some w =>
      obtain ⟨w', more, hw', hmore⟩ := hcontinues.old w hw
      simp only [hw', Option.elim_some, hmore, List.drop_left]
  | none =>
      cases hw' : a'.watched id with
      | none => rfl
      | some w' =>
          rw [Option.elim_some, hcontinues.new hw w' hw']
          rfl

/-- Every online session is heard, and channels took all that was sent. -/
structure Heard (h₀ : Hub) (t : Traffic cfg) : Prop where
  watching : Watching h₀ t.audit
  attached : t.broker.Attached
  complete : ∀ id, t.taken id = (t.audit.watched id).elim [] Watched.history

theorem Watching.stepped (ha : Watching h₀ a) {st : AuditStep} (hstep : a.step st = some a') :
    Watching h₀ a' ∧ Audit.Stepped a a' := by
  obtain ⟨htracks, hstepped⟩ := ha.tracks.step hstep
  exact ⟨⟨htracks, ha.tracks.filed ha.filed hstepped,
    ha.steady.step Watched.kept_steady hstepped⟩, hstepped⟩

/-- Another router, other retained messages or writes are no concern of the watches. -/
theorem Watching.with_hub (ha : Watching h₀ a) {h : Hub} (hcons : h.Consistent)
    (hsessions : h.sessions = a.hub.sessions) (hnext : h.nextId = a.hub.nextId)
    (hretry : h.retry = a.hub.retry) : Watching h₀ { a with hub := h } where
  tracks :=
    { retry := hretry.trans ha.tracks.retry
      consistent := hcons
      alike := fun id s hs => ha.tracks.alike id s (hsessions ▸ hs)
      fresh := fun id hid => ha.tracks.fresh id (hnext ▸ hid) }
  filed task htask := ⟨(ha.filed task htask).returned, (ha.filed task htask).given⟩
  steady := ⟨ha.steady.started, ha.steady.each⟩

/-- With every online session attached, a channel takes whatever is sent in the step. -/
theorem Heard.after (ht : t.Heard h₀) {audit : Audit cfg} {conns : AssocMap Nat Conn}
    (hwatching : Watching h₀ audit) (hcontinues : ∀ id, Continues t.audit audit id)
    (hattached : (t.after audit conns).broker.Attached) : (t.after audit conns).Heard h₀ where
  watching := hwatching
  attached := hattached
  complete id := by
    have hheard : Broker.deaf ⟨audit.hub, conns, t.limit⟩ id = false := hattached.not_deaf id
    simp only [Traffic.after, hheard, Bool.false_eq_true, if_false, ht.complete id]
    exact (hcontinues id).history_eq.symm

/-- Whoever is online stays attached as long as connections keep to one client, so that a step
loses nothing it sends. -/
theorem Heard.step (ht : t.Heard h₀) {st : TrafficStep} (hkeeps : t.KeepsClient st)
    (hstep : t.step st = some t') : t'.Heard h₀ := by
  cases st with
  | broker st =>
      obtain ⟨b, hb, hrest⟩ := Option.bind_eq_some_iff.mp hstep
      obtain ⟨audit, haudit, heq⟩ := Option.bind_eq_some_iff.mp hrest
      cases heq
      have hshift := Broker.step_shift ht.watching.tracks.consistent hb
      have hattached : b.Attached := ht.attached.shift hshift hkeeps
      rcases Broker.act_of_step hb with ⟨sec, hsec, hact⟩ | ⟨hsec, hsessions, hnext, hretry⟩
      · rw [hsec, follow] at haudit
        obtain ⟨hwatching, hstepped⟩ := ht.watching.stepped haudit
        refine ht.after hwatching (continues_of_stepped hstepped) ?_
        obtain ⟨hub, hhub, rfl⟩ := Option.map_eq_some_iff.mp haudit
        cases hact.symm.trans hhub
        exact hattached
      · rw [hsec] at haudit
        cases haudit
        have hcons := ht.watching.tracks.consistent.effect (Broker.step_effect hb)
        exact ht.after (ht.watching.with_hub hcons hsessions hnext hretry)
          (fun id => continues_of_eq rfl) hattached
  | deadLetter k clock =>
      obtain ⟨audit, haudit, heq⟩ := Option.bind_eq_some_iff.mp hstep
      cases heq
      obtain ⟨hwatching, hstepped⟩ := ht.watching.stepped haudit
      refine ht.after hwatching (continues_of_stepped hstepped) ?_
      obtain ⟨task, htask, hrest⟩ := Option.bind_eq_some_iff.mp haudit
      obtain ⟨c, hc, hrest⟩ := Option.bind_eq_some_iff.mp hrest
      obtain ⟨hub, hletter, heq⟩ := Option.bind_eq_some_iff.mp hrest
      cases heq
      -- a dead letter is published, and connections do not change
      intro id holder hholder
      have hsame : hub.sessions.holder = t.audit.hub.sessions.holder :=
        Hub.holder_deadLetter hletter
      exact ht.attached id holder (hsame ▸ hholder)

/-- What channels took is all that was sent, and that is enough to give a message up. -/
theorem Heard.patient (ht : t.Heard h₀) : t.Patient h₀ where
  alike := ht.watching.tracks.alike
  returned task htask now hcause := by
    rw [(ht.watching.filed task htask).returned, hcause]
    rfl
  spent task htask now hcause c hc := by
    obtain ⟨w, hw, hspent, hgave⟩ :=
      (ht.watching.filed task htask).spent ht.watching.steady hcause hc
    have hhanded : t.handed c.id c.name = w.transmissions c.name := by
      rw [handed, ht.complete c.id, hw]
      rfl
    exact ⟨hhanded ▸ hspent, w, hw, hgave⟩

/-- No session is online at startup. -/
theorem heard_start (storage : Option Storage) (retry : RetryConfig) (eventLogMax now limit : Nat) :
    (start (Hub.new storage retry eventLogMax now) limit).Heard
      (Hub.new storage retry eventLogMax now) where
  watching :=
    { tracks := Audit.tracks_start (Hub.consistent_new ..)
      filed := List.forall_mem_nil _
      steady := Audit.each_start Watched.kept_steady
        (Hub.offline_new storage retry eventLogMax now) }
  attached id holder hholder honline := by
    obtain ⟨s, hs, rfl⟩ := Option.map_eq_some_iff.mp hholder
    rw [Session.holder, Hub.offline_new storage retry eventLogMax now id s hs] at honline
    cases honline
  complete id := by
    simp only [start, Audit.start]
    cases (Hub.new storage retry eventLogMax now).sessions.byId.lookup id with
    | none => rfl
    | some s => rfl

/-- No message is given up early. From a start on any store, in every interleaving of
connections, deliveries, acknowledgements, retries, expiries and dead letters in which
connections keep to one client: a message that the retry timer hands over to be
dead-lettered was taken by a channel at least once, and at least as often as the policy has
attempts. -/
theorem patient_of_keepsClient (storage : Option Storage) (retry : RetryConfig)
    (eventLogMax limit now : Nat) (steps : List TrafficStep)
    (hkeeps : Machine.Meets step KeepsClient (start (Hub.new storage retry eventLogMax now) limit)
      steps) :
    Machine.Always step (Patient (Hub.new storage retry eventLogMax now))
      (start (Hub.new storage retry eventLogMax now) limit) steps :=
  Machine.always_of_meets (Heard (Hub.new storage retry eventLogMax now)) KeepsClient
    (fun _ _ _ ht hkeeps hstep => ht.step hkeeps hstep) (fun _ ht => ht.patient)
    (heard_start storage retry eventLogMax now limit) hkeeps

/-! ## Two runs -/

instance (b : Broker) (client : Option (Nat × String)) : Decidable (b.Keeps client) :=
  inferInstanceAs (Decidable (∀ accepted ∈ client, ∀ handle ∈ b.handle accepted.1,
    ∀ s ∈ b.hub.sessions.byId.lookup handle.1, s.generation = handle.2 → s.clientId = accepted.2))

instance (t : Traffic cfg) : (st : TrafficStep) → Decidable (t.KeepsClient st)
  | .broker st => inferInstanceAs (Decidable (t.broker.Keeps (t.broker.accepted? st)))
  | .deadLetter .. => isTrue trivial

def subscribed : List TrafficStep :=
  [.broker (.accept 0 "p"), .broker (.connect 0 ⟨"a", true, 60, none⟩ (some ⟨[], ["#"]⟩) 0),
    .broker (.subscribe 0 "t" .atLeastOnce)]

def published : List TrafficStep :=
  [.broker (.background (.route "t")),
    .broker (.background (.deliver [(1, .atLeastOnce)] "t" [7] .atLeastOnce 0))]

def retried (since : Nat) : List TrafficStep :=
  [5, 15, 35, 75, 135].map fun secs => .broker (.background (.tick ((since + secs) * 1000000000)))

/-- The client is away when the message is published, comes back after seven seconds, and
acknowledges nothing. -/
def unanswered : List TrafficStep :=
  subscribed ++ [.broker (.close 0)] ++ published ++
    [.broker (.accept 1 "p"),
      .broker (.connect 1 ⟨"a", false, 60, none⟩ (some ⟨[], ["#"]⟩) 7000000000)] ++ retried 7

/-- The connection goes on as another client before the message is published. -/
def renamed : List TrafficStep :=
  subscribed ++ [.broker (.connect 0 ⟨"b", true, 60, none⟩ (some ⟨[], ["#"]⟩) 0)] ++ published ++
    retried 0

/-- The message is given up, and the channel took it five times: at the return of the client,
and at four retries. -/
theorem patient_of_keepsClient_unanswered :
    ∃ t ∈ Machine.run step (start (Hub.new none .default 0 0) 50) unanswered,
      ∃ task ∈ t.audit.tasks, task.cause = .tick 142000000000 ∧
        ∃ c ∈ task.dead, max 1 RetryConfig.default.maxAttempts ≤ t.handed c.id c.name := by
  have hrun : ∃ t ∈ Machine.run step (start (Hub.new none .default 0 0) 50) unanswered,
      ∃ task ∈ t.audit.tasks, task.tick? = some 142000000000 ∧ ∃ c ∈ task.dead, c.client = "a" := by
    decide +kernel
  obtain ⟨t, ht, task, htask, htick, c, hc, -⟩ := hrun
  have hkeeps : Machine.Meets step KeepsClient (start (Hub.new none .default 0 0) 50)
      unanswered := by
    decide +kernel
  have hpatient := (patient_of_keepsClient none .default 0 50 0 unanswered hkeeps).last ht
  have hcause := Task.cause_of_tick htick
  exact ⟨t, ht, task, htask, hcause, c, hc, (hpatient.spent task htask _ hcause c hc).1⟩

/-- The message is given up, and no channel ever took it. -/
theorem given_up_unheard :
    ∃ t ∈ Machine.run step (start (Hub.new none .default 0 0) 50) renamed,
      (∃ task ∈ t.audit.tasks, task.cause = .tick 135000000000 ∧
        ∃ c ∈ task.dead, c.client = "a" ∧ t.handed c.id c.name = 0) ∧
      ¬ t.Patient (Hub.new none .default 0 0) := by
  have hrun : ∃ t ∈ Machine.run step (start (Hub.new none .default 0 0) 50) renamed,
      ∃ task ∈ t.audit.tasks, task.tick? = some 135000000000 ∧
        ∃ c ∈ task.dead, c.client = "a" ∧ t.handed c.id c.name = 0 := by
    decide +kernel
  obtain ⟨t, ht, task, htask, htick, c, hc, hclient, hnever⟩ := hrun
  have hcause := Task.cause_of_tick htick
  refine ⟨t, ht, ⟨task, htask, hcause, c, hc, hclient, hnever⟩, fun hpatient => ?_⟩
  have hspent : max 1 RetryConfig.default.maxAttempts ≤ t.handed c.id c.name :=
    (hpatient.spent task htask _ hcause c hc).1
  rw [hnever] at hspent
  cases hspent

end Traffic

end Relay
