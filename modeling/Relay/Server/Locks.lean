import Relay.Foundation.Locking
import Relay.Server.Queues
import Relay.Server.Routines

/-! # The locks of the hub

A broker without persistence, lock by lock. The sections that the operations are made of
take one lock, apart from those that remove a session: they take the router's lock
while they hold the one of the sessions. What the threads do lock by lock, they could as
well do section by section, and they never all wait for each other.
-/

namespace Relay

open Locking

/-! ## Locks and what they protect -/

/-- The mutexes of the hub. -/
inductive Lock where
  | sessions
  | router
  | retained

namespace Lock

/-- Whoever takes two of them takes the one of the sessions first. -/
def rank : Lock → Nat
  | sessions => 0
  | router => 1
  | retained => 2

theorem rank_injective : Function.Injective rank := by
  intro l l' heq
  cases l <;> cases l' <;> first | rfl | cases heq

instance : LinearOrder Lock := LinearOrder.lift' rank rank_injective

instance : Finite Lock := Finite.of_injective (fun l => (⟨rank l, by cases l <;> decide⟩ : Fin 3))
  fun l l' heq => rank_injective (congrArg Fin.val heq)

end Lock

/-- The session table, with the counter of handles and the scheduled purges: these are
touched only by those who hold the lock of the table. -/
structure Guarded where
  table : SessionTable
  nextId : Nat
  timers : List Purge

@[reducible] def Lock.Cell : Lock → Type
  | .sessions => Guarded
  | .router => Router
  | .retained => RetainedStore

structure Setup where
  retry : RetryConfig
  eventLogMax : Nat

/-- The hub without persistence that has these cells. -/
def hubOf (c : Setup) (m : Memory Lock.Cell) : Hub :=
  { nextId := (m .sessions).nextId
    router := m .router
    retained := m .retained
    sessions := (m .sessions).table
    disk := none
    retry := c.retry
    eventLogMax := c.eventLogMax
    timers := (m .sessions).timers }

namespace Hub

def guarded (h : Hub) : Guarded := ⟨h.sessions, h.nextId, h.timers⟩

def setup (h : Hub) : Setup := ⟨h.retry, h.eventLogMax⟩

def memory (h : Hub) : Memory Lock.Cell
  | .sessions => h.guarded
  | .router => h.router
  | .retained => h.retained

/-- Nothing is lost in taking a hub without persistence apart into cells. -/
theorem hubOf_memory {h : Hub} (hdisk : h.disk = none) : hubOf h.setup h.memory = h := by
  obtain ⟨nextId, router, retained, sessions, disk, retry, eventLogMax, timers⟩ := h
  cases hdisk
  rfl

end Hub

section Cells

variable (c : Setup) (m : Memory Lock.Cell)

theorem sessions_hubOf : (hubOf c m).sessions = (m .sessions).table := rfl

theorem retry_hubOf : (hubOf c m).retry = c.retry := rfl

@[simp] theorem hubOf_update_sessions (g : Guarded) :
    hubOf c (Function.update m .sessions g) =
      { hubOf c m with sessions := g.table, nextId := g.nextId, timers := g.timers } := by
  simp [hubOf]

@[simp] theorem hubOf_update_router (router : Router) :
    hubOf c (Function.update m .router router) = { hubOf c m with router := router } := by
  simp [hubOf]

@[simp] theorem hubOf_update_retained (retained : RetainedStore) :
    hubOf c (Function.update m .retained retained) = { hubOf c m with retained := retained } := by
  simp [hubOf]

end Cells

/-! ## The code of the sections -/

def locked {A : Type} (l : Lock) (f : l.Cell → Option (A × l.Cell)) : Code Lock.Cell A :=
  .call (.acquire l) fun _ => .call (.read l) fun x =>
    match f x with
    | some (a, x') => .call (.write l x') fun _ => .call (.release l) fun _ => .done a
    | none => .call .fail Empty.elim

def looked {A : Type} (l : Lock) (f : l.Cell → A) : Code Lock.Cell A :=
  .call (.acquire l) fun _ => .call (.read l) fun x => .call (.release l) fun _ => .done (f x)

/-- A hub in which there is nothing but sessions: all that a section sees that holds their
lock only. -/
def Guarded.view (c : Setup) (g : Guarded) : Hub :=
  hubOf c fun
    | .sessions => g
    | .router => Router.new
    | .retained => RetainedStore.new

theorem Guarded.sessions_view (c : Setup) (g : Guarded) : (g.view c).sessions = g.table := rfl

/-- Work on the sessions under their lock. -/
def onSessions {A : Type} (c : Setup) (f : Hub → Option (A × Hub)) : Code Lock.Cell A :=
  locked .sessions fun g => (f (g.view c)).map fun out => (out.1, out.2.guarded)

def forgetting {A : Type} (id : ClientId) (rest : Code Lock.Cell A) : Code Lock.Cell A :=
  .call (.acquire .router) fun _ => .call (.read .router) fun router =>
    .call (.write .router (router.removeClient id)) fun _ => .call (.release .router) fun _ => rest

def leaving {A : Type} (a : A) : Code Lock.Cell A := .call (.release .sessions) fun _ => .done a

/-- `Hub::connect`: only a clean start over an existing session needs the router. -/
def connectCode (c : Setup) (clientId : String) (cleanStart : Bool) (expirySecs now : Nat) :
    Code Lock.Cell Connected :=
  .call (.acquire .sessions) fun _ => .call (.read .sessions) fun g =>
    let h := (g.view c).bumpGeneration
    let generation := h.sessions.generation
    match h.sessions.idOf.lookup clientId with
    | some id =>
        if cleanStart then
          let dropped := h.dropSession id
          .call (.write .sessions dropped.guarded) fun _ =>
            forgetting id (.call (.write .sessions
              (dropped.register clientId expirySecs generation).guarded) fun _ =>
                leaving ⟨h.nextId, generation, false⟩)
        else
          match h.sessions.byId.lookup id with
          | none => .call .fail Empty.elim
          | some s =>
              let attached : Session := { s with tx := some [], expirySecs, generation }
              .call (.write .sessions
                (h.setSession id (attached.retransmit now h.retry)).guarded) fun _ =>
                  leaving ⟨id, generation, true⟩
    | none =>
        .call (.write .sessions (h.register clientId expirySecs generation).guarded) fun _ =>
          leaving ⟨h.nextId, generation, false⟩

def discardCode {A : Type} (id : ClientId) (h : Hub) (a : A) : Code Lock.Cell A :=
  .call (.write .sessions (h.discard id).guarded) fun _ => forgetting id (leaving a)

/-- `Hub::detach`: a session that ends with its connection is discarded. -/
def detachCode (c : Setup) (id : ClientId) (generation : Nat) : Code Lock.Cell Unit :=
  .call (.acquire .sessions) fun _ => .call (.read .sessions) fun g =>
    match (g.view c).sessions.byId.lookup id with
    | some s =>
        if s.generation = generation then
          let offline := (g.view c).setSession id { s with tx := none }
          if s.expirySecs = 0 then discardCode id offline ()
          else if s.expirySecs ≠ noExpiry then
            .call (.write .sessions { offline.guarded with
              timers := g.timers ++ [⟨id, generation, s.expirySecs⟩] }) fun _ => leaving ()
          else .call (.write .sessions offline.guarded) fun _ => leaving ()
        else leaving ()
    | none => leaving ()

/-- The locked part of `Hub::purge_if_idle`. -/
def expireCode (c : Setup) (id : ClientId) (generation : Nat) :
    Code Lock.Cell (List (String × DeadMsg)) :=
  .call (.acquire .sessions) fun _ => .call (.read .sessions) fun g =>
    match (g.view c).sessions.byId.lookup id with
    | some s =>
        if s.generation = generation ∧ s.tx = none then
          discardCode id ((g.view c).setSession id s.drainUndelivered.1)
            (s.drainUndelivered.2.map fun d => (s.clientId, d))
        else leaving []
    | none => leaving []

namespace Section

/-- The code of a section. Without persistence nothing is queued, and there is no worker. -/
def code (c : Setup) : (a : Section) → Code Lock.Cell a.Result
  | .connect clientId cleanStart expirySecs now => connectCode c clientId cleanStart expirySecs now
  | .detach id generation => detachCode c id generation
  | .expire id generation => expireCode c id generation
  | .subscribe id filter qos =>
      locked .router fun router => some ((), router.subscribe id filter qos)
  | .subscribeShared group id filter qos =>
      locked .router fun router => some ((), router.subscribeShared group id filter qos)
  | .unroute id raw =>
      locked .router fun router =>
        match SharedSubscription.parse raw with
        | some shared =>
            some (router.unsubscribeShared shared.group id shared.filter.asStr).swap
        | none => some (router.unsubscribe id raw).swap
  | .route topic => locked .router fun router => some (router.route topic)
  | .retain message => locked .retained fun retained => some ((), retained.apply message)
  | .deliver targets topic payload msgQos now =>
      onSessions c fun h => h.enter (.deliver targets topic payload msgQos now)
  | .replayRetained id messages granted now =>
      onSessions c fun h => h.enter (.replayRetained id messages granted now)
  | .tick now => onSessions c fun h => h.enter (.tick now)
  | .acknowledge id ack => onSessions c fun h => h.enter (.acknowledge id ack)
  | .qos2Seen id pid => onSessions c fun h => h.enter (.qos2Seen id pid)
  | .qos2Release id pid => onSessions c fun h => h.enter (.qos2Release id pid)
  | .send id packets => onSessions c fun h => h.enter (.send id packets)
  | .enqueue _ => .done ()
  | .work => .call .fail Empty.elim

end Section

/-- The code of an act. Without persistence a flush is acknowledged at once, and whether a
client is durable does not matter: the answer queues nothing. -/
def Act.code (c : Setup) (r : Reading) : (a : Act) → Code Lock.Cell a.Result
  | .enter a => a.code c
  | .clock => .done r.clock
  | .matching filter => looked .retained fun retained => retained.matching filter
  | .events _ => .done none
  | .durable id => looked .sessions fun g => (g.view c).durableClient id
  | .logLimit => .done c.eventLogMax
  | .flush => .done none
  | .acknowledged _ => .call .fail Empty.elim
  | .send _ => .done r.writable

/-! ## The code keeps to the rules -/

section Rules

variable {A : Type}

/-- One lock, one cell, and the lock is let go. -/
theorem disciplined_locked (l : Lock) (f : l.Cell → Option (A × l.Cell)) :
    Disciplined true ∅ (locked l f) := by
  have hmem : l ∈ insert l (∅ : Finset Lock) := Finset.mem_insert_self l ∅
  refine ⟨rfl, fun _ hl' => absurd hl' (Finset.notMem_empty _), hmem, fun x => ?_⟩
  change Disciplined true _ (match f x with | some (a, x') => _ | none => _)
  cases f x with
  | none => rfl
  | some out => exact ⟨hmem, hmem, Finset.erase_insert (Finset.notMem_empty l)⟩

theorem disciplined_looked (l : Lock) (f : l.Cell → A) : Disciplined true ∅ (looked l f) := by
  have hmem : l ∈ insert l (∅ : Finset Lock) := Finset.mem_insert_self l ∅
  refine ⟨rfl, fun _ hl' => absurd hl' (Finset.notMem_empty _), hmem, fun x => ⟨hmem, ?_⟩⟩
  exact Finset.erase_insert (Finset.notMem_empty l)

/-- Code that starts by taking the lock of the sessions and reading the table. -/
theorem disciplined_sessions {next : Guarded → Code Lock.Cell A}
    (hnext : ∀ g, Disciplined true {.sessions} (next g)) :
    Disciplined true ∅
      (.call (.acquire Lock.sessions) fun _ => .call (.read .sessions) next :
        Code Lock.Cell A) := by
  refine ⟨rfl, fun _ hl' => absurd hl' (Finset.notMem_empty _), ?_, hnext⟩
  exact Finset.mem_insert_self _ ∅

theorem disciplined_leaving (growing : Bool) (a : A) :
    Disciplined growing {Lock.sessions} (leaving a) :=
  ⟨Finset.mem_singleton_self _, Finset.erase_singleton _⟩

theorem disciplined_write (growing : Bool) (g : Guarded) {rest : Code Lock.Cell A}
    (hrest : Disciplined growing {.sessions} rest) :
    Disciplined growing {Lock.sessions} (.call (.write .sessions g) fun _ => rest) :=
  ⟨Finset.mem_singleton_self _, hrest⟩

/-- The router is locked while the sessions are, in the order of the ranks. -/
theorem disciplined_forgetting (id : ClientId) {rest : Code Lock.Cell A}
    (hrest : Disciplined false {.sessions} rest) :
    Disciplined true {Lock.sessions} (forgetting id rest) := by
  have hmem : Lock.router ∈ insert Lock.router {Lock.sessions} := Finset.mem_insert_self _ _
  refine ⟨rfl, ?_, hmem, fun router => ⟨hmem, hmem, ?_⟩⟩
  · intro l hl
    rw [Finset.mem_singleton.mp hl]
    decide
  · have herase : (insert Lock.router {Lock.sessions} : Finset Lock).erase .router = {.sessions} :=
      Finset.erase_insert (by decide)
    rw [herase]
    exact hrest

theorem disciplined_discardCode (id : ClientId) (h : Hub) (a : A) :
    Disciplined true {Lock.sessions} (discardCode id h a) :=
  disciplined_write true _ (disciplined_forgetting id (disciplined_leaving false a))

end Rules

/-- Every section takes its locks by ascending rank and lets them go at the end. -/
theorem disciplined_section (c : Setup) (a : Section) : Disciplined true ∅ (a.code c) := by
  cases a with
  | connect clientId cleanStart expirySecs now =>
      refine disciplined_sessions fun g => ?_
      dsimp only
      split
      · split
        · exact disciplined_write true _ (disciplined_forgetting _
            (disciplined_write false _ (disciplined_leaving false _)))
        · split
          · rfl
          · exact disciplined_write true _ (disciplined_leaving true _)
      · exact disciplined_write true _ (disciplined_leaving true _)
  | detach id generation =>
      refine disciplined_sessions fun g => ?_
      split
      · split
        · dsimp only
          split
          · exact disciplined_discardCode id _ ()
          · split
            · exact disciplined_write true _ (disciplined_leaving true ())
            · exact disciplined_write true _ (disciplined_leaving true ())
        · exact disciplined_leaving true ()
      · exact disciplined_leaving true ()
  | expire id generation =>
      refine disciplined_sessions fun g => ?_
      split
      · split
        · exact disciplined_discardCode id _ _
        · exact disciplined_leaving true _
      · exact disciplined_leaving true _
  | enqueue => rfl
  | work => rfl
  | _ =>
      rw [Section.code]
      exact disciplined_locked _ _

/-- Acts other than sections take at most one lock. -/
theorem disciplined_act (c : Setup) (r : Reading) (a : Act) : Disciplined true ∅ (a.code c r) := by
  cases a with
  | enter a => exact disciplined_section c a
  | matching filter => exact disciplined_looked .retained _
  | durable id => exact disciplined_looked .sessions _
  | _ => rfl

/-! ## Alone, the code does what the section does -/

section Alone

variable {A : Type} (c : Setup) (m : Memory Lock.Cell)

/-- Without other threads a lock changes nothing. -/
theorem alone_locked (l : Lock) (f : l.Cell → Option (A × l.Cell)) :
    alone (locked l f) m = (f (m l)).map fun out => (out.1, Function.update m l out.2) := by
  simp only [alone, locked, Program.exec, Op.perform, Option.bind_some]
  cases f (m l) with
  | none => rfl
  | some out => rfl

/-- The function uses and changes the sessions only. -/
def SessionsOnly (f : Hub → Option (A × Hub)) : Prop :=
  ∀ m : Memory Lock.Cell, f (hubOf c m) = (f ((m .sessions).view c)).map fun out =>
    (out.1, hubOf c (Function.update m .sessions out.2.guarded))

variable {c}

/-- A function of the sessions is the same on the cell as on the hub. -/
theorem SessionsOnly.alone {f : Hub → Option (A × Hub)} (hf : SessionsOnly c f) :
    f (hubOf c m) = (Locking.alone (onSessions c f) m).map fun out => (out.1, hubOf c out.2) := by
  rw [hf m, onSessions, alone_locked, Option.map_map, Option.map_map]
  rfl

/-- Writing back the session that was looked up. -/
theorem hubOf_setSession (m : Memory Lock.Cell) (id : ClientId) (s : Session) :
    (hubOf c m).setSession id s =
      hubOf c (Function.update m .sessions (((m .sessions).view c).setSession id s).guarded) := by
  rw [hubOf_update_sessions]
  rfl

theorem hubOf_guarded_view (m : Memory Lock.Cell) :
    hubOf c (Function.update m .sessions ((m .sessions).view c).guarded) = hubOf c m := by
  rw [hubOf_update_sessions]
  rfl

/-- Looking a session up, and perhaps writing it back. -/
theorem sessionsOnly_lookup (id : ClientId) {f : Hub → Option (A × Hub)} (none' : A)
    (some' : Session → Option (A × Session))
    (hf : ∀ m : Memory Lock.Cell, f (hubOf c m) =
      match (m .sessions).table.byId.lookup id with
      | none => some (none', hubOf c m)
      | some s => (some' s).map fun out => (out.1, (hubOf c m).setSession id out.2)) :
    SessionsOnly c f := by
  intro m
  rw [Guarded.view, hf m, hf]
  cases hs : (m .sessions).table.byId.lookup id with
  | none => exact congrArg (fun h => some (none', h)) (hubOf_guarded_view m).symm
  | some s =>
      simp only [Option.map_map]
      congr 1

/-! ### Sections that work on sessions -/

/-- One target of the delivery loop, which sees the sessions only. -/
theorem deliverTo_hubOf (topic : String) (payload : Bytes) (msgQos : QoS) (now : Nat)
    (m : Memory Lock.Cell) (delivered : Nat) (toPersist : List (String × Bytes))
    (target : ClientId × QoS) :
    Hub.deliverTo topic payload msgQos now ⟨delivered, toPersist, hubOf c m⟩ target =
      (Hub.deliverTo topic payload msgQos now ⟨delivered, toPersist, (m .sessions).view c⟩
        target).map fun f =>
          ⟨f.delivered, f.toPersist, hubOf c (Function.update m .sessions f.hub.guarded)⟩ := by
  have hsame : (hubOf c m).sessions.byId.lookup target.1 =
      ((m .sessions).view c).sessions.byId.lookup target.1 := rfl
  simp only [Hub.deliverTo, hsame]
  cases ((m .sessions).view c).sessions.byId.lookup target.1 with
  | none =>
      exact congrArg (fun h => some (Hub.Fanout.mk delivered toPersist h))
        (hubOf_guarded_view m).symm
  | some s =>
      have hretry : (hubOf c m).retry = ((m .sessions).view c).retry := rfl
      simp only [hretry]
      cases s.deliver topic payload (min msgQos target.2) false now
          ((m .sessions).view c).retry with
      | none => rfl
      | some s' =>
          exact congrArg (fun h => some (Hub.Fanout.mk (delivered + 1) _ h))
            (hubOf_setSession m target.1 s')

theorem sessionsOnly_deliver (targets : List (ClientId × QoS)) (topic : String) (payload : Bytes)
    (msgQos : QoS) (now : Nat) :
    SessionsOnly c fun h => h.enter (.deliver targets topic payload msgQos now) := by
  -- the loop, from any state of it
  have hloop : ∀ (targets : List (ClientId × QoS)) (m : Memory Lock.Cell) (delivered : Nat)
      (toPersist : List (String × Bytes)),
      targets.foldlM (Hub.deliverTo topic payload msgQos now) ⟨delivered, toPersist, hubOf c m⟩ =
        (targets.foldlM (Hub.deliverTo topic payload msgQos now)
          ⟨delivered, toPersist, (m .sessions).view c⟩).map fun f =>
            ⟨f.delivered, f.toPersist, hubOf c (Function.update m .sessions f.hub.guarded)⟩ := by
    intro targets
    induction targets with
    | nil =>
        intro m delivered toPersist
        exact congrArg (fun h => some (Hub.Fanout.mk delivered toPersist h))
          (hubOf_guarded_view m).symm
    | cons target rest ih =>
        intro m delivered toPersist
        rw [List.foldlM_cons, List.foldlM_cons, deliverTo_hubOf]
        cases hfirst : Hub.deliverTo topic payload msgQos now
            ⟨delivered, toPersist, (m .sessions).view c⟩ target with
        | none => rfl
        | some f =>
            -- the next target sees a hub with nothing but sessions again
            have hview : f.hub = f.hub.guarded.view c := by
              rw [Hub.only_sessions_deliverTo hfirst]
              rfl
            have hnext := ih (Function.update m .sessions f.hub.guarded) f.delivered f.toPersist
            rw [Function.update_self, ← hview] at hnext
            refine hnext.trans ?_
            congr 1
  intro m
  have hall := hloop targets m 0 []
  simp only [Hub.enter, Hub.deliverAll, hall, Option.map_map]
  rfl

theorem snapshotInflight_hubOf (m : Memory Lock.Cell) (s : Session) :
    (hubOf c m).snapshotInflight s = none := by
  refine if_neg fun h => ?_
  cases h.1

theorem sessionsOnly_replayRetained (id : ClientId) (messages : List Message) (granted : QoS)
    (now : Nat) : SessionsOnly c fun h => h.enter (.replayRetained id messages granted now) := by
  refine sessionsOnly_lookup id none
    (fun s => (Hub.deliverMessages granted now c.retry messages s).map fun s' => (none, s')) ?_
  intro m
  simp only [Hub.enter, Hub.replayRetained, sessions_hubOf, retry_hubOf, snapshotInflight_hubOf,
    ite_self]
  cases (m .sessions).table.byId.lookup id with
  | none => rfl
  | some s =>
      dsimp only
      cases Hub.deliverMessages granted now c.retry messages s with
      | none => rfl
      | some s' => rfl

theorem sessionsOnly_acknowledge (id : ClientId) (ack : Ack) :
    SessionsOnly c fun h => h.enter (.acknowledge id ack) := by
  refine sessionsOnly_lookup id none (fun s => some (none, ack.apply s)) fun m => ?_
  simp only [Hub.enter, Hub.acknowledge, sessions_hubOf, snapshotInflight_hubOf]
  cases (m .sessions).table.byId.lookup id with
  | none => rfl
  | some s => rfl

theorem sessionsOnly_qos2Seen (id : ClientId) (pid : Nat) :
    SessionsOnly c fun h => h.enter (.qos2Seen id pid) := by
  refine sessionsOnly_lookup id true (fun s => some (decide (pid ∉ s.incomingQos2),
    { s with incomingQos2 := insert pid s.incomingQos2 })) fun m => ?_
  simp only [Hub.enter, Hub.inboundQos2Seen, sessions_hubOf]
  cases (m .sessions).table.byId.lookup id with
  | none => rfl
  | some s => rfl

theorem sessionsOnly_qos2Release (id : ClientId) (pid : Nat) :
    SessionsOnly c fun h => h.enter (.qos2Release id pid) := by
  refine sessionsOnly_lookup id () (fun s => some ((),
    { s with incomingQos2 := s.incomingQos2.erase pid })) fun m => ?_
  simp only [Hub.enter, Hub.inboundQos2Release, sessions_hubOf]
  cases (m .sessions).table.byId.lookup id with
  | none => rfl
  | some s => rfl

theorem sessionsOnly_send (id : ClientId) (packets : List Packet) :
    SessionsOnly c fun h => h.enter (.send id packets) := by
  refine sessionsOnly_lookup id 0 (fun s => some (packets.length, packets.foldl Session.send s))
    fun m => ?_
  simp only [Hub.enter, Hub.sendAll, sessions_hubOf]
  cases (m .sessions).table.byId.lookup id with
  | none => rfl
  | some s => rfl

/-- The retry tick needs no lock but that of the sessions. -/
theorem sessionsOnly_tick (now : Nat) : SessionsOnly c fun h => h.enter (.tick now) := by
  intro m
  simp only [Hub.enter, Option.map_some]
  rfl

/-! ### Sections that remove sessions -/

/-- Removing a session without persistence. -/
theorem hubOf_discard (m : Memory Lock.Cell) (id : ClientId) :
    (hubOf c m).discard id =
      hubOf c (Function.update (Function.update m .sessions
        (((m .sessions).view c).discard id).guarded) .router ((m .router).removeClient id)) := by
  rw [hubOf_update_router, hubOf_update_sessions]
  unfold Hub.discard
  have hsame : (hubOf c m).sessions.byId.lookup id =
      ((m .sessions).view c).sessions.byId.lookup id := rfl
  rw [hsame]
  cases ((m .sessions).view c).sessions.byId.lookup id with
  | none => rfl
  | some s => rfl

/-- What is left of a section that ends by discarding a session. -/
theorem alone_discardCode (id : ClientId) (m : Memory Lock.Cell) {h : Hub} {g : Guarded} (a : A)
    (hview : h = g.view c) :
    (Locking.alone (discardCode id h a) m).map (fun out => (out.1, hubOf c out.2)) =
      some (a, (hubOf c (Function.update m .sessions g)).discard id) := by
  subst hview
  rw [hubOf_discard, Function.update_self, Function.update_idem,
    Function.update_of_ne (show Lock.router ≠ Lock.sessions by decide)]
  rfl

/-- The code of a detach does what the detach of the hub does. -/
theorem alone_detachCode (id : ClientId) (generation : Nat) (m : Memory Lock.Cell) :
    (Locking.alone (detachCode c id generation) m).map (fun out => (out.1, hubOf c out.2)) =
      some ((), (hubOf c m).detach id generation) := by
  simp only [Locking.alone, detachCode, Program.exec, Op.perform, Option.bind_some, Hub.detach,
    Guarded.sessions_view, sessions_hubOf]
  cases (m .sessions).table.byId.lookup id with
  | none => rfl
  | some s =>
      dsimp only
      by_cases hgeneration : s.generation = generation
      · rw [if_pos hgeneration, if_pos hgeneration]
        by_cases hzero : s.expirySecs = 0
        · rw [if_pos hzero, if_pos hzero, hubOf_setSession]
          exact alone_discardCode id m () rfl
        · rw [if_neg hzero, if_neg hzero]
          by_cases hforever : s.expirySecs ≠ noExpiry
          · rw [if_pos hforever, if_pos hforever]
            exact congrArg (fun h => some ((), h)) (hubOf_update_sessions c m _)
          · rw [if_neg hforever, if_neg hforever]
            exact congrArg (fun h => some ((), h)) (hubOf_update_sessions c m _)
      · rw [if_neg hgeneration, if_neg hgeneration]
        rfl

/-- The code of an expiry does what the expiry of the hub does. -/
theorem alone_expireCode (id : ClientId) (generation : Nat) (m : Memory Lock.Cell) :
    (Locking.alone (expireCode c id generation) m).map (fun out => (out.1, hubOf c out.2)) =
      some ((hubOf c m).expire id generation) := by
  simp only [Locking.alone, expireCode, Program.exec, Op.perform, Option.bind_some, Hub.expire,
    Guarded.sessions_view, sessions_hubOf]
  cases (m .sessions).table.byId.lookup id with
  | none => rfl
  | some s =>
      dsimp only
      by_cases hidle : s.generation = generation ∧ s.tx = none
      · rw [if_pos hidle, if_pos hidle, hubOf_setSession]
        exact alone_discardCode id m _ rfl
      · rw [if_neg hidle, if_neg hidle]
        rfl

theorem persistMeta_of_memoryOnly {h : Hub} (hdisk : h.disk = none) (clientId : String)
    (expirySecs : Nat) : h.persistMeta clientId expirySecs = h := by
  have henqueue (op : PersistOp) : h.enqueue op = h := by
    rw [Hub.enqueue, hdisk, Option.map_none, ← hdisk]
  unfold Hub.persistMeta
  split <;> exact henqueue _

/-- The code of a CONNECT, in its three cases, does what the CONNECT of the hub does. -/
theorem alone_connectCode (clientId : String) (cleanStart : Bool) (expirySecs now : Nat)
    (m : Memory Lock.Cell) :
    (Locking.alone (connectCode c clientId cleanStart expirySecs now) m).map
        (fun out => (out.1, hubOf c out.2)) =
      (hubOf c m).connect clientId cleanStart expirySecs now := by
  have hidOf : (hubOf c m).bumpGeneration.sessions.idOf = (m .sessions).table.idOf := rfl
  have hidOf' : ((m .sessions).view c).bumpGeneration.sessions.idOf =
      (m .sessions).table.idOf := rfl
  have hbyId : (hubOf c m).bumpGeneration.sessions.byId = (m .sessions).table.byId := rfl
  have hbyId' : ((m .sessions).view c).bumpGeneration.sessions.byId =
      (m .sessions).table.byId := rfl
  simp only [Locking.alone, connectCode, Program.exec, Op.perform, Option.bind_some, Hub.connect,
    hidOf, hidOf', hbyId, hbyId']
  cases (m .sessions).table.idOf.lookup clientId with
  | none =>
      dsimp only
      rw [persistMeta_of_memoryOnly rfl]
      refine congrArg some (Prod.ext rfl ?_)
      exact hubOf_update_sessions c m _
  | some id =>
      dsimp only
      cases cleanStart with
      | true =>
          rw [if_pos rfl, if_pos rfl, persistMeta_of_memoryOnly rfl]
          refine congrArg some (Prod.ext rfl ?_)
          let dropped := ((m .sessions).view c).bumpGeneration.dropSession id
          have hcells := hubOf_update_sessions c
            (Function.update (Function.update m .sessions dropped.guarded) .router
              ((m .router).removeClient id))
            (dropped.register clientId expirySecs dropped.sessions.generation).guarded
          rw [hubOf_update_router, hubOf_update_sessions] at hcells
          exact hcells
      | false =>
          simp only [Bool.false_eq_true, if_false]
          cases (m .sessions).table.byId.lookup id with
          | none => rfl
          | some s =>
              dsimp only
              rw [persistMeta_of_memoryOnly rfl]
              refine congrArg some (Prod.ext rfl ?_)
              exact hubOf_update_sessions c m _

/-! ### Every section and every act -/

/-- Sections of the router alone. -/
theorem alone_onRouter (f : Router → A × Router) (m : Memory Lock.Cell) :
    (Locking.alone (locked .router fun router => some (f router)) m).map
        (fun out => (out.1, hubOf c out.2)) =
      some ((f (m .router)).1, { hubOf c m with router := (f (m .router)).2 }) := by
  rw [alone_locked, Option.map_some, Option.map_some, hubOf_update_router]

/-- The code of every section does what the section does. -/
theorem enter_hubOf (m : Memory Lock.Cell) (a : Section) :
    (hubOf c m).enter a = (Locking.alone (a.code c) m).map fun out => (out.1, hubOf c out.2) := by
  cases a with
  | connect clientId cleanStart expirySecs now =>
      exact (alone_connectCode clientId cleanStart expirySecs now m).symm
  | detach id generation => exact (alone_detachCode id generation m).symm
  | expire id generation => exact (alone_expireCode id generation m).symm
  | subscribe id filter qos =>
      exact (alone_onRouter (fun router => ((), router.subscribe id filter qos)) m).symm
  | subscribeShared group id filter qos =>
      exact (alone_onRouter (fun router => ((), router.subscribeShared group id filter qos)) m).symm
  | unroute id raw =>
      rw [Section.code, alone_locked]
      simp only [Hub.enter, Hub.unroute]
      cases SharedSubscription.parse raw with
      | none =>
          rw [Option.map_some, Option.map_some, hubOf_update_router]
          rfl
      | some shared =>
          rw [Option.map_some, Option.map_some, hubOf_update_router]
          rfl
  | route topic => exact (alone_onRouter (fun router => router.route topic) m).symm
  | retain message =>
      rw [Section.code, alone_locked, Option.map_some, Option.map_some, hubOf_update_retained]
      rfl
  | deliver targets topic payload msgQos now =>
      exact (sessionsOnly_deliver targets topic payload msgQos now).alone m
  | replayRetained id messages granted now =>
      exact (sessionsOnly_replayRetained id messages granted now).alone m
  | tick now => exact (sessionsOnly_tick now).alone m
  | acknowledge id ack => exact (sessionsOnly_acknowledge id ack).alone m
  | qos2Seen id pid => exact (sessionsOnly_qos2Seen id pid).alone m
  | qos2Release id pid => exact (sessionsOnly_qos2Release id pid).alone m
  | send id packets => exact (sessionsOnly_send id packets).alone m
  | enqueue op => rfl
  | work => rfl

/-- The code of every act does what the act does. -/
theorem attend_hubOf (r : Reading) (m : Memory Lock.Cell) (a : Act) :
    (hubOf c m).attend r a =
      (Locking.alone (a.code c r) m).map fun out => (out.1, hubOf c out.2) := by
  cases a with
  | enter a => exact enter_hubOf m a
  | acknowledged ack =>
      have hnone : (hubOf c m).attend r (.acknowledged ack) = none := by
        simp only [Hub.attend, Hub.perform]
        refine if_neg ?_
        rintro ⟨d, hd, -⟩
        cases hd
      rw [hnone]
      rfl
  | _ => rfl

end Alone

/-! ## Threads that run routines -/

structure Crew (K B : Type) where
  hub : Hub
  routines : K → Routine B

section Crew

variable {K B : Type} [DecidableEq K]

def Crew.step (crew : Crew K B) (turn : K × Reading) : Option (Crew K B) :=
  match crew.routines turn.1 with
  | .call a next =>
      (crew.hub.attend turn.2 a).map fun out =>
        ⟨out.2, Function.update crew.routines turn.1 (next out.1)⟩
  | .done _ => none

/-- The crew lock by lock: before it has begun. -/
def Crew.unlocked (crew : Crew K B) : Threads Lock.Cell K Act Act.Result Reading B :=
  ⟨crew.hub.memory, fun _ => none, fun k => .outside (crew.routines k)⟩

def crewOf (c : Setup) (a : Atomic Lock.Cell K Act Act.Result B) : Crew K B :=
  ⟨hubOf c a.memory, a.prog⟩

/-- A transaction of the atomic world is an act of the crew. -/
theorem crewOf_step (c : Setup) (a : Atomic Lock.Cell K Act Act.Result B) (turn : K × Reading) :
    (crewOf c a).step turn = (a.step (Act.code c) turn).map (crewOf c) := by
  unfold Crew.step Atomic.step
  have hprog : (crewOf c a).routines turn.1 = a.prog turn.1 := rfl
  rw [hprog]
  cases a.prog turn.1 with
  | done b => rfl
  | call act next =>
      have hattend : (crewOf c a).hub.attend turn.2 act = _ := attend_hubOf turn.2 a.memory act
      simp only [hattend, Option.map_map]
      rfl

theorem crewOf_run (c : Setup) {a a' : Atomic Lock.Cell K Act Act.Result B}
    {turns : List (K × Reading)} (hrun : Machine.run (Atomic.step (Act.code c)) a turns = some a') :
    Machine.run Crew.step (crewOf c a) turns = some (crewOf c a') := by
  induction turns generalizing a with
  | nil =>
      cases hrun
      rfl
  | cons turn turns ih =>
      obtain ⟨a₁, hstep, hrest⟩ := Machine.run_cons_eq_some.mp hrun
      refine Machine.run_cons_eq_some.mpr ⟨crewOf c a₁, ?_, ih hrest⟩
      rw [crewOf_step, hstep, Option.map_some]

/-- Sections are atomic. Whatever threads do lock by lock to a hub without persistence,
they could have done act by act, each act at one instant while it was under way: every
thread that is between two acts has come as far and got the same answers, and what no
lock is held on is the same. -/
theorem acts_are_atomic (crew : Crew K B) (hdisk : crew.hub.disk = none)
    (events : List (Locking.Event K Reading)) {s : Threads Lock.Cell K Act Act.Result Reading B}
    (hrun : Machine.run (Threads.step (Act.code crew.hub.setup)) crew.unlocked events = some s) :
    ∃ turns crew', Machine.run Crew.step crew turns = some crew' ∧
      (∀ l, s.owner l = none → crew'.hub.memory l = s.memory l) ∧
      ∀ k routine, s.status k = .outside routine → crew'.routines k = routine := by
  obtain ⟨turns, a, hturns, hsim⟩ := (simulates_start crew.hub.memory crew.routines).run
    (disciplined_act crew.hub.setup) hrun
  refine ⟨turns, crewOf crew.hub.setup a, ?_, fun l hl => ?_, fun k routine hk => ?_⟩
  · have hcrew : crewOf crew.hub.setup ⟨crew.hub.memory, crew.routines⟩ = crew := by
      rw [crewOf, Hub.hubOf_memory hdisk]
    rw [← crewOf_run crew.hub.setup hturns, hcrew]
  · rw [← hsim.free l hl]
    cases l <;> rfl
  · obtain ⟨held, -, hstanding⟩ := hsim.standing k
    cases hstanding with
    | outside hstatus hprog _ =>
        cases hk.symm.trans hstatus
        exact hprog
    | growing hstatus => cases hk.symm.trans hstatus
    | shrinking hstatus => cases hk.symm.trans hstatus

/-- The locks of the hub cannot deadlock. Whatever threads have done so far without
persistence, if one of them is in the middle of an act and none has panicked, some thread
in the middle of an act can go on. -/
theorem locks_never_deadlock (crew : Crew K B) (events : List (Locking.Event K Reading))
    {s : Threads Lock.Cell K Act Act.Result Reading B}
    (hrun : Machine.run (Threads.step (Act.code crew.hub.setup)) crew.unlocked events = some s)
    (hok : ∀ k, (s.status k).failed = false) (k : K) (hbusy : (s.status k).busy = true) :
    ∃ j s', s.step (Act.code crew.hub.setup) (.go j) = some s' := by
  obtain ⟨turns, a, -, hsim⟩ := (simulates_start crew.hub.memory crew.routines).run
    (disciplined_act crew.hub.setup) hrun
  exact hsim.exists_step hok hbusy

def restarting : Crew Bool Unit :=
  { hub := Hub.new none ⟨5, 5, 60⟩ 0 0
    routines := fun k =>
      if k then do
        let _ ← enter (.subscribe 9 ⟨"shelf", by decide +kernel⟩ .atLeastOnce)
        pure ()
      else do
        let _ ← enter (.connect "c" true 60 0)
        let _ ← enter (.connect "c" true 60 0)
        pure () }

/-- The subscription is made when the clean start has let the router go, with the
sessions still locked. -/
def overtaking : List (Locking.Event Bool Reading) :=
  let r : Reading := ⟨⟨0, 0⟩, 0, true⟩
  [Locking.Event.start false r] ++ List.replicate 5 (Locking.Event.go false) ++
    [Locking.Event.start false r] ++ List.replicate 7 (Locking.Event.go false) ++
    [Locking.Event.start true r] ++ List.replicate 5 (Locking.Event.go true) ++
    List.replicate 3 (Locking.Event.go false)

theorem acts_are_atomic_overtaking :
    ∃ s ∈ Machine.run (Threads.step (Act.code restarting.hub.setup)) restarting.unlocked overtaking,
      ∃ turns crew', Machine.run Crew.step restarting turns = some crew' ∧
        ∀ l, crew'.hub.memory l = s.memory l := by
  have hrun : ∃ s ∈ Machine.run (Threads.step (Act.code restarting.hub.setup)) restarting.unlocked
      overtaking, s.owner .sessions = none ∧ s.owner .router = none ∧ s.owner .retained = none := by
    decide +kernel
  obtain ⟨s, hs, hsessions, hrouter, hretained⟩ := hrun
  obtain ⟨turns, crew', hturns, hfree, -⟩ := acts_are_atomic restarting rfl overtaking hs
  refine ⟨s, hs, turns, crew', hturns, fun l => hfree l ?_⟩
  cases l with
  | sessions => exact hsessions
  | router => exact hrouter
  | retained => exact hretained

/-- The clean start has the sessions and wants the router, which the other one has. -/
def waiting : List (Locking.Event Bool Reading) :=
  let r : Reading := ⟨⟨0, 0⟩, 0, true⟩
  [Locking.Event.start false r] ++ List.replicate 5 (Locking.Event.go false) ++
    [Locking.Event.start true r, .go true, .start false r] ++
    List.replicate 3 (Locking.Event.go false)

theorem locks_never_deadlock_waiting :
    ∃ s ∈ Machine.run (Threads.step (Act.code restarting.hub.setup)) restarting.unlocked waiting,
      (s.step (Act.code restarting.hub.setup) (.go false)).isNone = true ∧
        ∃ j s', s.step (Act.code restarting.hub.setup) (.go j) = some s' := by
  have hrun : ∃ s ∈ Machine.run (Threads.step (Act.code restarting.hub.setup)) restarting.unlocked
      waiting, (s.step (Act.code restarting.hub.setup) (.go false)).isNone = true ∧
        (∀ k, (s.status k).failed = false) ∧ (s.status false).busy = true := by
    decide +kernel
  obtain ⟨s, hs, hstuck, hok, hbusy⟩ := hrun
  exact ⟨s, hs, hstuck, locks_never_deadlock restarting waiting hs hok false hbusy⟩

end Crew

end Relay
