import Relay.Server.Mediation
import Relay.Server.Routines

/-! # The whole broker

The hub with everything that acts on it: the handlers of any number of connections,
the retry and expiry timers, the persistence worker and restarts. Every one of them
performs one section or looks at one thing at a time, in any order, and goes on with
what it got. The connections are the only way in for contents; what they brought is
noted beside the state.
-/

namespace Relay

/-- Who acts on the hub: a handler that waits for an input or is in the middle of one,
and a routine that returns nothing, of a timer or of a handler past its loop. -/
inductive Party where
  | waiting (conn : Conn)
  | busy (rest : Routine (Flow × Conn))
  | finishing (rest : Routine Unit)

namespace Party

def settle : Routine (Flow × Conn) → Party
  | .call a next => .busy (.call a next)
  | .done (.next, conn) => .waiting conn
  | .done (.leave clean, conn) => .finishing ((conn.teardown clean).expand Call.routine)

/-- What the party asks for next. -/
def next? : Party → Option Act
  | .busy (.call a _) => some a
  | .finishing (.call a _) => some a
  | _ => none

end Party

inductive Timer where
  | retry
  | purge (id : ClientId) (generation : Nat)

namespace Timer

def routine : Timer → Routine Unit
  | .retry => Routine.runRetries
  | .purge id generation => Routine.purgeIfIdle id generation

/-- A purge fires only if it was scheduled. -/
def Set (h : Hub) : Timer → Prop
  | .retry => True
  | .purge id generation => ∃ p ∈ h.timers, p.id = id ∧ p.generation = generation

instance (h : Hub) (t : Timer) : Decidable (t.Set h) :=
  match t with
  | .retry => isTrue trivial
  | .purge _ _ => inferInstanceAs (Decidable (∃ p ∈ h.timers, _))

end Timer

/-! ## Contents that come in -/

/-- A message that a client brought: a PUBLISH it was allowed to make, or a Will. -/
inductive Origin where
  | publish (p : Publish)
  | will (w : Message)
deriving DecidableEq

namespace Origin

def topic : Origin → String
  | publish p => p.topic
  | will w => w.topic

def payload : Origin → Bytes
  | publish p => p.payload
  | will w => w.payload

end Origin

/-- The length fields of the wire format can hold topic and payload. -/
def WireFits (topic : String) (payload : Bytes) : Prop :=
  (Wire.utf8 topic).length < u16Bound ∧ payload.length < u32Bound

instance (topic : String) (payload : Bytes) : Decidable (WireFits topic payload) :=
  inferInstanceAs (Decidable (_ ∧ _))

/-- A PUBLISH that the handler routes: there is a session, it is no replay request and
the permissions cover it. -/
def Conn.accepts (conn : Conn) (p : Publish) : Bool :=
  conn.sessionId.isSome && (Text.strip "$replay/" p.topic).isNone && conn.access.canPublish p.topic

namespace Input

/-- The lengths of an input are such that the wire format can carry it. -/
def OnWire (conn : Conn) : Input → Prop
  | .packet (.publish p) => WireFits p.topic p.payload
  | .packet (.connect p _) =>
      (Wire.utf8 (p.session conn.peer).1).length < u16Bound ∧
        ∀ w ∈ p.will, WireFits w.topic w.payload
  | _ => True

def origins (conn : Conn) : Input → List Origin
  | .packet (.publish p) => if conn.accepts p then [.publish p] else []
  | .packet (.connect p _) => p.will.toList.map .will
  | _ => []

/-- What comes in over the wire fits the wire. -/
theorem fits_of_mem_origins {conn : Conn} {input : Input} (hwire : input.OnWire conn) {o : Origin}
    (ho : o ∈ input.origins conn) : WireFits o.topic o.payload := by
  cases input with
  | ended => cases ho
  | outgoing packet => cases ho
  | packet p =>
      cases p with
      | publish p =>
          rw [origins] at ho
          split at ho
          · rw [List.mem_singleton.mp ho]
            exact hwire
          · cases ho
      | connect p password =>
          obtain ⟨w, hw, rfl⟩ := List.mem_map.mp ho
          exact hwire.2 w (Option.mem_toList.mp hw)
      | _ => cases ho

instance (conn : Conn) (input : Input) : Decidable (input.OnWire conn) :=
  match input with
  | .packet (.publish _) => inferInstanceAs (Decidable (WireFits _ _))
  | .packet (.connect p _) =>
      inferInstanceAs (Decidable (_ ∧ ∀ w ∈ p.will, WireFits w.topic w.payload))
  | .packet (.subscribe ..) | .packet (.publishAck _) | .packet (.publishReceived _)
  | .packet (.publishComplete _) | .packet (.publishRelease _) | .packet (.unsubscribe ..)
  | .packet .pingRequest | .packet (.disconnect _) | .packet .other | .ended | .outgoing _ =>
      isTrue trivial

end Input

/-! ## Steps -/

/-- The dead messages that are taken out of the queues to be dead-lettered. -/
def Hub.taken (h : Hub) : Act → List (String × DeadMsg)
  | .enter (.expire id generation) => (h.expire id generation).1
  | .enter (.tick now) => (h.tickAll now).1
  | _ => []

/-- The hub, the parties by number, and what came in so far. -/
structure System where
  hub : Hub
  parties : AssocMap Nat Party
  origins : List Origin

inductive SystemStep where
  | accept (k : Nat) (peer : String)
  | receive (k : Nat) (input : Input)
  | fire (k : Nat) (t : Timer)
  | own (k : Nat) (r : Reading)
  | work
  | restart (applied : Nat) (retry : RetryConfig) (eventLogMax now : Nat)

namespace System

def start (durable : Bool) (retry : RetryConfig) (eventLogMax now : Nat) : System :=
  ⟨Hub.new (if durable then some Storage.empty else none) retry eventLogMax now, ∅, []⟩

def become (s : System) (k : Nat) (party : Party) : System :=
  { s with parties := s.parties.insert k party }

/-- One step; `none` if it is not possible or the hub panics. -/
def step (cfg : HandlerConfig) (s : System) : SystemStep → Option System
  | .accept k peer => if k ∈ s.parties then none else some (s.become k (.waiting (Conn.start peer)))
  | .receive k input =>
      match s.parties.lookup k with
      | some (.waiting conn) =>
          if input.ready conn ∧ input.OnWire conn then
            some { s.become k (.settle ((conn.onInput cfg input).expand Call.routine)) with
              origins := s.origins ++ input.origins conn }
          else none
      | _ => none
  | .fire k t =>
      if k ∉ s.parties ∧ t.Set s.hub then some (s.become k (.finishing t.routine)) else none
  | .own k r =>
      match s.parties.lookup k with
      | some (.busy (.call a next)) =>
          (s.hub.attend r a).map fun out =>
            { s.become k (.settle (next out.1)) with hub := out.2 }
      | some (.finishing (.call a next)) =>
          (s.hub.attend r a).map fun out =>
            { s.become k (.finishing (next out.1)) with hub := out.2 }
      | _ => none
  | .work => s.hub.work.map fun h => { s with hub := h }
  | .restart applied retry eventLogMax now =>
      -- no connection and no routine survives, and the worker's queue is lost but for a part
      some ⟨Hub.new (s.hub.disk.map (·.crashed applied)) retry eventLogMax now, ∅, s.origins⟩

def taken (s : System) : SystemStep → List (String × DeadMsg)
  | .own k _ => (((s.parties.lookup k).bind Party.next?).map s.hub.taken).getD []
  | _ => []

/-- What a step brings in. -/
def brings (s : System) : SystemStep → List Origin
  | .receive k input =>
      match s.parties.lookup k with
      | some (.waiting conn) => input.origins conn
      | _ => []
  | _ => []

/-- The guard of a step keeps what comes in within the wire format. -/
theorem fits_of_mem_brings {cfg : HandlerConfig} {s s' : System} {a : SystemStep}
    (hstep : s.step cfg a = some s') {o : Origin} (ho : o ∈ s.brings a) :
    WireFits o.topic o.payload := by
  cases a with
  | receive k input =>
      rw [step] at hstep
      rw [brings] at ho
      split at hstep
      next conn hparty =>
        rw [hparty] at ho
        split at hstep
        next hready => exact Input.fits_of_mem_origins hready.2 ho
        next => cases hstep
      next => cases hstep
  | _ => cases ho

/-- A step appends what it brings and forgets nothing. -/
theorem origins_step {cfg : HandlerConfig} {s s' : System} {a : SystemStep}
    (hstep : s.step cfg a = some s') : s'.origins = s.origins ++ s.brings a := by
  cases a with
  | accept k peer =>
      rw [step] at hstep
      split at hstep
      · cases hstep
      · cases hstep
        exact (List.append_nil _).symm
  | receive k input =>
      rw [step] at hstep
      split at hstep
      next conn hparty =>
        split at hstep
        · cases hstep
          rw [brings, hparty]
        · cases hstep
      next => cases hstep
  | fire k t =>
      rw [step] at hstep
      split at hstep
      · cases hstep
        exact (List.append_nil _).symm
      · cases hstep
  | own k r =>
      have hnone : s.brings (.own k r) = [] := rfl
      rw [step] at hstep
      rw [hnone, List.append_nil]
      split at hstep
      · obtain ⟨out, -, rfl⟩ := Option.map_eq_some_iff.mp hstep
        rfl
      · obtain ⟨out, -, rfl⟩ := Option.map_eq_some_iff.mp hstep
        rfl
      · cases hstep
  | work =>
      obtain ⟨h, -, rfl⟩ := Option.map_eq_some_iff.mp hstep
      exact (List.append_nil _).symm
  | restart applied retry eventLogMax now =>
      cases hstep
      exact (List.append_nil _).symm

/-- What came in is never forgotten. -/
theorem origins_subset_run {cfg : HandlerConfig} {s t : System} {steps : List SystemStep}
    (hrun : Machine.run (step cfg) s steps = some t) : s.origins ⊆ t.origins := by
  induction steps generalizing s with
  | nil =>
      cases hrun
      exact List.Subset.refl _
  | cons a steps ih =>
      obtain ⟨s', hstep, hrest⟩ := Machine.run_cons_eq_some.mp hrun
      have hfirst : s.origins ⊆ s'.origins := by
        rw [origins_step hstep]
        exact List.subset_append_left _ _
      exact List.Subset.trans hfirst (ih hrest)

/-! ## A party that nothing interrupts -/

section Uninterrupted

variable (cfg : HandlerConfig) (r : Reading)

/-- A routine past its loop can be carried through. -/
theorem reaches_finishing {routine : Routine Unit} {s : System} {k : Nat} {h' : Hub}
    (hparty : s.parties.lookup k = some (.finishing routine))
    (halone : Routine.alone r s.hub routine = some ((), h')) :
    ∃ s', Machine.Reaches (step cfg) s s' ∧ s'.hub = h' := by
  induction routine generalizing s with
  | done a =>
      cases halone
      exact ⟨s, .refl s, rfl⟩
  | call a next ih =>
      obtain ⟨out, hattend, hrest⟩ := Option.bind_eq_some_iff.mp halone
      let after : System := { s.become k (.finishing (next out.1)) with hub := out.2 }
      have hstep : s.step cfg (.own k r) = some after := by
        rw [step, hparty]
        exact congrArg (Option.map _) hattend
      have hnext : after.parties.lookup k = some (.finishing (next out.1)) := AList.lookup_insert _
      obtain ⟨s', hreach, hhub⟩ := ih out.1 hnext hrest
      exact ⟨s', (Machine.Reaches.single _ hstep).trans hreach, hhub⟩

/-- A handler can carry its input through. -/
theorem reaches_settled {rest : Routine (Flow × Conn)} {s : System} {k : Nat} {conn : Conn}
    {h' : Hub} (hparty : s.parties.lookup k = some (.settle rest))
    (halone : Routine.alone r s.hub rest = some ((.next, conn), h')) :
    ∃ s', Machine.Reaches (step cfg) s s' ∧ s'.hub = h' ∧
      s'.parties.lookup k = some (.waiting conn) ∧
      ∀ j, j ≠ k → s'.parties.lookup j = s.parties.lookup j := by
  induction rest generalizing s with
  | done a =>
      cases halone
      exact ⟨s, .refl s, rfl, hparty, fun _ _ => rfl⟩
  | call a next ih =>
      obtain ⟨out, hattend, hrest⟩ := Option.bind_eq_some_iff.mp halone
      have hbusy : s.parties.lookup k = some (.busy (.call a next)) := hparty
      let after : System := { s.become k (.settle (next out.1)) with hub := out.2 }
      have hstep : s.step cfg (.own k r) = some after := by
        rw [step, hbusy]
        exact congrArg (Option.map _) hattend
      have hnext : after.parties.lookup k = some (.settle (next out.1)) := AList.lookup_insert _
      obtain ⟨s', hreach, hhub, hwaiting, hothers⟩ := ih out.1 hnext hrest
      refine ⟨s', (Machine.Reaches.single _ hstep).trans hreach, hhub, hwaiting, fun j hj => ?_⟩
      rw [hothers j hj]
      exact AList.lookup_insert_ne hj

/-- What a handler does with an input, the broker can do. -/
theorem reaches_turn {s : System} {k : Nat} {conn conn' : Conn} {input : Input} {h' : Hub}
    (hparty : s.parties.lookup k = some (.waiting conn)) (hready : input.ready conn)
    (hwire : input.OnWire conn)
    (hturn : (conn.onInput cfg input).exec (fun h c => h.perform r c) s.hub =
      some ((.next, conn'), h')) :
    ∃ s', Machine.Reaches (step cfg) s s' ∧ s'.hub = h' ∧
      s'.parties.lookup k = some (.waiting conn') ∧
      ∀ j, j ≠ k → s'.parties.lookup j = s.parties.lookup j := by
  have halone : Routine.alone r s.hub ((conn.onInput cfg input).expand Call.routine) =
      some ((.next, conn'), h') := by
    rw [Routine.alone, Program.exec_expand, ← hturn]
    congr 1
    funext h c
    exact Routine.alone_routine r h c
  let after : System :=
    { s.become k (.settle ((conn.onInput cfg input).expand Call.routine)) with
      origins := s.origins ++ input.origins conn }
  have hstep : s.step cfg (.receive k input) = some after := by
    rw [step, hparty]
    exact if_pos ⟨hready, hwire⟩
  have hsettled : after.parties.lookup k =
      some (.settle ((conn.onInput cfg input).expand Call.routine)) := AList.lookup_insert _
  obtain ⟨s', hreach, hhub, hwaiting, hothers⟩ := reaches_settled cfg r hsettled halone
  refine ⟨s', (Machine.Reaches.single _ hstep).trans hreach, hhub, hwaiting, fun j hj => ?_⟩
  rw [hothers j hj]
  exact AList.lookup_insert_ne hj

/-- What a timer does, the broker can do. -/
theorem reaches_fired {s : System} {k : Nat} {t : Timer} {h' : Hub} (hfree : k ∉ s.parties)
    (hset : t.Set s.hub) (halone : Routine.alone r s.hub t.routine = some ((), h')) :
    ∃ s', Machine.Reaches (step cfg) s s' ∧ s'.hub = h' := by
  have hstep : s.step cfg (.fire k t) = some (s.become k (.finishing t.routine)) :=
    if_pos ⟨hfree, hset⟩
  obtain ⟨s', hreach, hhub⟩ := reaches_finishing cfg r (s := s.become k (.finishing t.routine))
    (AList.lookup_insert _) halone
  exact ⟨s', (Machine.Reaches.single _ hstep).trans hreach, hhub⟩

end Uninterrupted

end System

end Relay
