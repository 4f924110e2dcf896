import Relay.Server.EventLog
import Relay.Server.Queues
import Relay.Server.System

/-! # Flushes

A handler that takes a PINGREQ or a replay request queues a flush and waits until
the worker acknowledges it. Meanwhile every other handler, the timers and the worker
go on. Before the acknowledgement the handler does nothing else, and from then on a
crash loses nothing of what was queued when the request came in.
-/

namespace Relay

/-! ## The worker and a flush -/

namespace Disk

/-- The store is one that the worker makes of the disk once it has drained the queue,
whatever is queued later. -/
def Flushed (d₀ : Disk) (st : Storage) : Prop :=
  ∃ later, st = (d₀.queue ++ later).foldl Storage.applyPersistOp d₀.storage

theorem flushed_settled (d : Disk) : d.Flushed d.settled :=
  ⟨[], by rw [List.append_nil, settled]⟩

/-- Later writes do not undo a flush. -/
theorem Flushed.apply {d₀ : Disk} {st : Storage} (hst : d₀.Flushed st) (op : PersistOp) :
    d₀.Flushed (st.applyPersistOp op) := by
  obtain ⟨later, rfl⟩ := hst
  refine ⟨later ++ [op], ?_⟩
  simp only [List.foldl_append, List.foldl_cons, List.foldl_nil]

theorem Flushed.foldl {d₀ : Disk} {st : Storage} (hst : d₀.Flushed st) (ops : List PersistOp) :
    d₀.Flushed (ops.foldl Storage.applyPersistOp st) := by
  induction ops generalizing st with
  | nil => exact hst
  | cons op rest ih => exact ih (hst.apply op)

/-- A flush was asked for: it is acknowledged or in the queue. -/
def Asked (d : Disk) (ack : Nat) : Prop := ack ∈ d.acks ∨ .flush ack ∈ d.queue

/-- The writes before the flush in the queue are enough, or it is acknowledged and
the store has them. -/
inductive Awaits (d₀ : Disk) (ack : Nat) (d : Disk) : Prop where
  | queued (front back : List PersistOp) (hqueue : d.queue = front ++ .flush ack :: back)
      (hacks : ack ∉ d.acks) (hfront : .flush ack ∉ front)
      (hst : d₀.Flushed (front.foldl Storage.applyPersistOp d.storage))
  | acknowledged (hack : ack ∈ d.acks) (hst : d₀.Flushed d.storage)

/-- Once the flush is acknowledged, the store has what was queued before it. -/
theorem Awaits.flushed {d₀ d : Disk} {ack : Nat} (hawaits : d₀.Awaits ack d)
    (hack : ack ∈ d.acks) : d₀.Flushed d.storage := by
  cases hawaits with
  | queued _ _ _ hacks => exact absurd hack hacks
  | acknowledged _ hst => exact hst

/-- A flush that is awaited was asked for. -/
theorem Awaits.asked {d₀ d : Disk} {ack : Nat} (hawaits : d₀.Awaits ack d) : d.Asked ack := by
  cases hawaits with
  | queued front back hqueue =>
      refine Or.inr ?_
      rw [hqueue]
      exact List.mem_append_right _ List.mem_cons_self
  | acknowledged hack _ => exact Or.inl hack

/-- What a step of the broker does to the disk: it queues writes, a flush only if it
asks for that one, or it is a round of the worker. -/
inductive Moves (ack : Option Nat) (d : Disk) : Disk → Prop where
  | queues (ops : List PersistOp) (hops : ∀ n, .flush n ∈ ops → ack = some n) :
      Moves ack d { d with queue := d.queue ++ ops }
  | works {d' : Disk} (hwork : d.work = some d') : Moves ack d d'

section Moves

variable {d₀ d d' : Disk} {ack : Option Nat}

theorem Moves.same (ack : Option Nat) (d : Disk) : Moves ack d d := by
  have hmoves : Moves ack d { d with queue := d.queue ++ [] } :=
    .queues [] fun _ hmem => absurd hmem List.not_mem_nil
  rwa [List.append_nil] at hmoves

theorem exists_of_works (hwork : d.work = some d') :
    ∃ op, d.queue = op :: d'.queue ∧ d'.storage = d.storage.applyPersistOp op ∧
      d'.acks = d.acks ++ op.ack?.toList := by
  unfold Disk.work at hwork
  split at hwork
  · cases hwork
  next op rest hqueue =>
    cases hwork
    refine ⟨op, hqueue, rfl, ?_⟩
    cases op with
    | flush n => rfl
    | _ => exact (List.append_nil _).symm

theorem Moves.flushed_settled (hmoves : Moves ack d d') (hst : d₀.Flushed d.settled) :
    d₀.Flushed d'.settled := by
  cases hmoves with
  | queues ops _ =>
      rw [settled, List.foldl_append]
      exact hst.foldl ops
  | works hwork => rwa [settled_work hwork]

theorem Moves.flushed (hmoves : Moves ack d d') (hst : d₀.Flushed d.storage) :
    d₀.Flushed d'.storage := by
  cases hmoves with
  | queues ops _ => exact hst
  | works hwork =>
      obtain ⟨op, -, hstorage, -⟩ := exists_of_works hwork
      rw [hstorage]
      exact hst.apply op

/-- The flushes asked for so far, and perhaps the one of the step. -/
theorem Moves.asked (hmoves : Moves ack d d') {n : Nat} (hasked : d'.Asked n) :
    d.Asked n ∨ ack = some n := by
  cases hmoves with
  | queues ops hops =>
      rcases hasked with hacks | hqueue
      · exact Or.inl (Or.inl hacks)
      · rcases List.mem_append.mp hqueue with hold | hnew
        · exact Or.inl (Or.inr hold)
        · exact Or.inr (hops n hnew)
  | works hwork =>
      obtain ⟨op, hqueue, -, hacks⟩ := exists_of_works hwork
      refine Or.inl ?_
      rcases hasked with hacked | hqueued
      · rw [hacks] at hacked
        rcases List.mem_append.mp hacked with hold | hnew
        · exact Or.inl hold
        · refine Or.inr ?_
          cases op with
          | flush m =>
              rw [List.mem_singleton.mp hnew, hqueue]
              exact List.mem_cons_self
          | _ => cases hnew
      · exact Or.inr (hqueue ▸ List.mem_cons_of_mem op hqueued)

/-- Whatever the broker does, a flush that is awaited stays awaited or is acknowledged. -/
theorem Moves.awaits (hmoves : Moves ack d d') {n : Nat} (hawaits : d₀.Awaits n d) :
    d₀.Awaits n d' := by
  cases hawaits with
  | acknowledged hack hst =>
      refine .acknowledged ?_ (hmoves.flushed hst)
      cases hmoves with
      | queues ops _ => exact hack
      | works hwork =>
          obtain ⟨op, -, -, hacks⟩ := exists_of_works hwork
          rw [hacks]
          exact List.mem_append_left _ hack
  | queued front back hqueue hacks hfront hst =>
      cases hmoves with
      | queues ops _ =>
          refine .queued front (back ++ ops) ?_ hacks hfront hst
          rw [hqueue, List.append_assoc, List.cons_append]
      | works hwork =>
          obtain ⟨op, hop, hstorage, hacks'⟩ := exists_of_works hwork
          rw [hqueue] at hop
          cases front with
          | nil =>
              -- it is the flush's turn
              obtain ⟨rfl, -⟩ := List.cons.inj hop
              refine .acknowledged ?_ ?_
              · rw [hacks']
                exact List.mem_append_right _ (List.mem_singleton_self n)
              · rw [hstorage]
                exact hst
          | cons first front =>
              obtain ⟨rfl, hrest⟩ := List.cons.inj hop
              rw [List.mem_cons, not_or] at hfront
              refine .queued front back hrest.symm ?_ hfront.2 ?_
              · rw [hacks', List.mem_append, not_or]
                refine ⟨hacks, fun hmem => ?_⟩
                cases first with
                | flush m =>
                    rw [List.mem_singleton.mp hmem] at hfront
                    exact hfront.1 rfl
                | _ => cases hmem
              · rw [hstorage]
                exact hst

end Moves

/-- A flush under a new number. -/
theorem awaits_enqueue {d₀ d : Disk} {ack : Nat} (hst : d₀.Flushed d.settled)
    (hnew : ¬ d.Asked ack) : d₀.Awaits ack (d.enqueue (.flush ack)) :=
  .queued d.queue [] rfl (fun hacks => hnew (Or.inl hacks)) (fun hqueue => hnew (Or.inr hqueue)) hst

/-- A crash after the acknowledgement keeps what was flushed. -/
theorem Flushed.crashed {d₀ d : Disk} (hst : d₀.Flushed d.storage) (n : Nat) :
    d₀.Flushed (d.crashed n) :=
  hst.foldl _

end Disk

/-! ## Who asks for flushes -/

def Act.Quiet : Act → Prop
  | .enter (.enqueue (.flush _)) => False
  | _ => True

namespace Routine

abbrev Quiet {A : Type} (routine : Routine A) : Prop := routine.Meets Act.Quiet fun _ => True

theorem quiet_writeAll (snapshots : List (String × Bytes)) : (writeAll snapshots).Quiet := by
  induction snapshots with
  | nil => trivial
  | cons snapshot rest ih => exact ⟨trivial, fun _ => ih⟩

theorem quiet_journal (topic : String) (payload : Bytes) (qos : QoS) :
    (journal topic payload qos).Quiet := by
  refine ⟨trivial, fun limit => Program.meets_ite ?_ trivial⟩
  exact ⟨trivial, fun _ => ⟨trivial, fun _ => trivial⟩⟩

theorem quiet_announce (topic : String) (payload : Bytes) (qos : QoS) (retain : Bool) :
    (announce topic payload qos retain).Quiet := by
  cases retain with
  | false => exact quiet_journal topic payload qos
  | true => exact ⟨trivial, fun _ => ⟨trivial, fun _ => quiet_journal topic payload qos⟩⟩

theorem quiet_fanOut (topic : String) (payload : Bytes) (qos : QoS) :
    (fanOut topic payload qos).Quiet := by
  refine ⟨trivial, fun targets => Program.meets_ite trivial ?_⟩
  refine ⟨trivial, fun clock => ⟨trivial, fun delivery => ?_⟩⟩
  exact (quiet_writeAll delivery.2).bind fun _ _ => trivial

/-- Publishing waits for no flush. -/
theorem quiet_publish (topic : String) (payload : Bytes) (qos : QoS) (retain : Bool) :
    (publish topic payload qos retain).Quiet :=
  (quiet_announce topic payload qos retain).bind fun _ _ => quiet_fanOut topic payload qos

theorem quiet_deadLetterAll (reason : String) (dead : List (String × DeadMsg)) :
    (deadLetterAll reason dead).Quiet := by
  induction dead with
  | nil => trivial
  | cons entry rest ih =>
      obtain ⟨clientId, msg⟩ := entry
      have hfirst : (deadLetter clientId msg reason).Quiet := by
        unfold deadLetter
        split
        · trivial
        · refine ⟨trivial, fun clock => ⟨trivial, fun _ => ?_⟩⟩
          exact (quiet_publish _ _ _ _).bind fun _ _ => trivial
      exact hfirst.bind fun _ _ => ih

/-- The timers ask for no flush. -/
theorem quiet_timer (t : Timer) : t.routine.Quiet := by
  cases t with
  | retry =>
      refine ⟨trivial, fun clock => ⟨trivial, fun visit => ?_⟩⟩
      exact (quiet_writeAll visit.2).bind fun _ _ => quiet_deadLetterAll _ visit.1
  | purge id generation => exact ⟨trivial, fun dead => quiet_deadLetterAll _ dead⟩

theorem quiet_ifDurable (id : ClientId) {op : String → PersistOp}
    (hop : ∀ clientId ack, op clientId ≠ .flush ack) : (ifDurable id op).Quiet := by
  refine ⟨trivial, fun client => ?_⟩
  cases client with
  | none => trivial
  | some clientId =>
      refine ⟨?_, fun _ => trivial⟩
      cases hwrite : op clientId with
      | flush ack => exact absurd hwrite (hop clientId ack)
      | _ => trivial

/-- The routine of every call. -/
theorem quiet_routine (c : Call) : c.routine.Quiet := by
  cases c with
  | connect => exact ⟨trivial, fun _ => ⟨trivial, fun _ => trivial⟩⟩
  | subscribe id filter qos raw =>
      exact ⟨trivial, fun _ => quiet_ifDurable id (by intro _ _ heq; cases heq)⟩
  | subscribeShared group id filter qos raw =>
      exact ⟨trivial, fun _ => quiet_ifDurable id (by intro _ _ heq; cases heq)⟩
  | unsubscribe id raw =>
      refine ⟨trivial, fun removed => ?_⟩
      have hforget : (ifDurable id fun clientId => .removeSubscription clientId raw).Quiet :=
        quiet_ifDurable id (by intro _ _ heq; cases heq)
      exact hforget.bind fun _ _ => trivial
  | deliverRetained id filter granted =>
      refine ⟨trivial, fun messages => Program.meets_ite trivial ?_⟩
      exact ⟨trivial, fun _ => ⟨trivial, fun snapshot => quiet_writeAll snapshot.toList⟩⟩
  | publish topic payload qos retain => exact quiet_publish topic payload qos retain
  | replay id start filter =>
      refine ⟨trivial, fun rows => ?_⟩
      cases rows with
      | none => trivial
      | some events => exact ⟨trivial, fun _ => trivial⟩
  | acknowledge id ack => exact ⟨trivial, fun snapshot => quiet_writeAll snapshot.toList⟩
  | _ => exact ⟨trivial, fun _ => trivial⟩

end Routine

namespace Party

def Quiet : Party → Prop
  | .waiting _ => True
  | .busy rest => rest.Quiet
  | .finishing rest => rest.Quiet

theorem quiet_settle {rest : Routine (Flow × Conn)} (hrest : rest.Quiet) : (settle rest).Quiet := by
  cases rest with
  | call a next => exact hrest
  | done out =>
      obtain ⟨flow, conn⟩ := out
      cases flow with
      | next => trivial
      | leave clean => exact Program.meets_expand Routine.quiet_routine _

end Party

theorem Hub.disk_flush {h : Hub} {d : Disk} (hdisk : h.disk = some d) (ack : Nat) :
    (h.flush ack).disk = some (d.enqueue (.flush ack)) := by
  rw [Hub.flush, Hub.enqueue, hdisk, Option.map_some]

/-- What an act does to the disk. -/
theorem Hub.attend_moves {h : Hub} {d : Disk} (hdisk : h.disk = some d) {r : Reading} {a : Act}
    (hquiet : a.Quiet) {out : a.Result × Hub} (hattend : h.attend r a = some out) :
    ∃ d', out.2.disk = some d' ∧ d.Moves (some r.ack) d' := by
  have hsame : ∃ d', h.disk = some d' ∧ d.Moves (some r.ack) d' := ⟨d, hdisk, .same _ d⟩
  cases a with
  | enter a =>
      have hact : h.act a = some out.2 := by
        rw [Hub.act_eq_enter]
        exact congrArg (Option.map Prod.snd) hattend
      by_cases hwork : a = .work
      · subst hwork
        obtain ⟨d₁, d', hd₁, hd', heq⟩ := Hub.exists_of_work hact
        rw [hdisk] at hd₁
        cases hd₁
        exact ⟨d', by rw [heq], .works hd'⟩
      · have hqueues : Hub.QueuesAll (fun op => ∀ n, op ≠ .flush n) h out.2 := by
          refine Hub.queuesAll_act ?_ ?_ hwork ?_ hact
          · intro _ _ _ _ heq
            cases heq
          · intro _ _ heq
            cases heq
          · rintro op rfl n rfl
            exact hquiet
        obtain ⟨ops, hops, hall⟩ := hqueues
        refine ⟨{ d with queue := d.queue ++ ops }, ?_, .queues ops ?_⟩
        · rw [hops.disk, hdisk, Option.map_some]
        · exact fun n hn => absurd rfl (hall _ hn n)
  | flush =>
      simp only [Hub.attend, Hub.perform, hdisk] at hattend
      cases hattend
      refine ⟨d.enqueue (.flush r.ack), Hub.disk_flush hdisk r.ack, .queues [.flush r.ack] ?_⟩
      intro n hn
      cases List.mem_singleton.mp hn
      rfl
  | acknowledged ack =>
      simp only [Hub.attend, Hub.perform] at hattend
      split at hattend
      · cases hattend
        exact hsame
      · cases hattend
  | _ =>
      cases hattend
      exact hsame

/-! ## Requests that flush -/

/-- Inputs whose handling starts with a flush, and how it goes on: a PINGREQ, and a
replay request that is allowed. -/
inductive Conn.Flushes (conn : Conn) : Input → Handler (Flow × Conn) → Prop where
  | ping : conn.Flushes (.packet .pingRequest) (conn.reply .pingResponse)
  | replay {p : Publish} {id : ClientId} {text : String} {start : Nat} {filter : TopicFilter}
      (hid : conn.sessionId = some id) (htopic : Text.strip "$replay/" p.topic = some text)
      (hparse : parseReplay text = some (start, filter))
      (hallowed : conn.access.canSubscribe filter.asStr = true) :
      conn.Flushes (.packet (.publish p))
        (.call (.replay id start filter) fun _ => conn.acknowledge p .success)

/-- The routine once the flush has been asked for. -/
def Routine.afterFlush {A : Type} (rest : Routine A) : Option Nat → Routine A
  | some ack => .call (.acknowledged ack) fun _ => rest
  | none => rest

/-- The flush is the first thing such an input does to the hub. -/
theorem Conn.Flushes.routine {conn : Conn} {input : Input} {rest : Handler (Flow × Conn)}
    (hflushes : conn.Flushes input rest) (cfg : HandlerConfig) :
    (conn.onInput cfg input).expand Call.routine =
      .call .flush (Routine.afterFlush (rest.expand Call.routine)) := by
  have hflush : (flush >>= fun _ => rest).expand Call.routine =
      .call .flush (Routine.afterFlush (rest.expand Call.routine)) := by
    refine congrArg (Program.call Act.flush) (funext fun channel => ?_)
    cases channel <;> rfl
  cases hflushes with
  | ping => exact hflush
  | @replay p id text start filter hid htopic hparse hallowed =>
      refine Eq.trans (congrArg (Program.expand Call.routine) ?_) hflush
      simp only [onInput, onPacket, onPublish, hid, htopic, onReplay, hparse, hallowed, if_true]
      rfl

namespace SystemStep

def ack? : SystemStep → Option Nat
  | .own _ r => some r.ack
  | _ => none

/-- The channels of a run. -/
theorem filterMap_ack_cons (a : SystemStep) (steps : List SystemStep) :
    (a :: steps).filterMap ack? = a.ack?.toList ++ steps.filterMap ack? := by
  rw [List.filterMap_cons]
  cases a.ack? with
  | none => rfl
  | some n => rfl

def isRestart : SystemStep → Bool
  | .restart .. => true
  | _ => false

end SystemStep

namespace System

variable {cfg : HandlerConfig} {s s' : System} {a : SystemStep} {k : Nat}

/-- What a step does that is no restart: a party comes in or takes up an input, one
performs its next act, or the worker takes a round. -/
inductive Takes (s : System) : SystemStep → System → Prop where
  | enters {a : SystemStep} (k : Nat) (party : Party) (origins : List Origin)
      (hidle : ∀ rest, s.parties.lookup k ≠ some (.busy rest)) (hquiet : party.Quiet) :
      Takes s a { s.become k party with origins := origins }
  | acts {k : Nat} {r : Reading} {act : Act} {next : act.Result → Routine (Flow × Conn)}
      {out : act.Result × Hub} (hparty : s.parties.lookup k = some (.busy (.call act next)))
      (hattend : s.hub.attend r act = some out) :
      Takes s (.own k r) { s.become k (.settle (next out.1)) with hub := out.2 }
  | finishes {k : Nat} {r : Reading} {act : Act} {next : act.Result → Routine Unit}
      {out : act.Result × Hub} (hparty : s.parties.lookup k = some (.finishing (.call act next)))
      (hattend : s.hub.attend r act = some out) :
      Takes s (.own k r) { s.become k (.finishing (next out.1)) with hub := out.2 }
  | works {h : Hub} (hwork : s.hub.work = some h) : Takes s .work { s with hub := h }

/-- Apart from restarts, these are all the steps. -/
theorem takes_of_step (hup : a.isRestart = false) (hstep : s.step cfg a = some s') :
    s.Takes a s' := by
  have hunknown {j : Nat} (hj : j ∉ s.parties) (rest : Routine (Flow × Conn)) :
      s.parties.lookup j ≠ some (.busy rest) := by
    rw [AList.lookup_eq_none.mpr hj]
    exact (Option.some_ne_none _).symm
  cases a with
  | accept j peer =>
      rw [step] at hstep
      split at hstep
      · cases hstep
      next hfree =>
        cases hstep
        exact .enters j _ s.origins (hunknown hfree) trivial
  | receive j input =>
      rw [step] at hstep
      split at hstep
      next conn hwaiting =>
        split at hstep
        · cases hstep
          refine .enters j _ _ (fun rest hbusy => ?_)
            (Party.quiet_settle (Program.meets_expand Routine.quiet_routine _))
          cases hwaiting.symm.trans hbusy
        · cases hstep
      next => cases hstep
  | fire j t =>
      rw [step] at hstep
      split at hstep
      next hfree =>
        cases hstep
        exact .enters j _ s.origins (hunknown hfree.1) (Routine.quiet_timer t)
      · cases hstep
  | own j r =>
      rw [step] at hstep
      split at hstep
      next hparty =>
        obtain ⟨out, hattend, rfl⟩ := Option.map_eq_some_iff.mp hstep
        exact .acts hparty hattend
      next hparty =>
        obtain ⟨out, hattend, rfl⟩ := Option.map_eq_some_iff.mp hstep
        exact .finishes hparty hattend
      next => cases hstep
  | work =>
      obtain ⟨h, hwork, rfl⟩ := Option.map_eq_some_iff.mp hstep
      exact .works hwork
  | restart => cases hup

/-- What a party is in the middle of stays as it is while others act. -/
theorem lookup_busy_step {rest : Routine (Flow × Conn)}
    (hparty : s.parties.lookup k = some (.busy rest)) (hother : ∀ r, a ≠ .own k r)
    (hup : a.isRestart = false) (hstep : s.step cfg a = some s') :
    s'.parties.lookup k = some (.busy rest) := by
  have hbecome (j : Nat) (party : Party) (hj : j ≠ k) :
      (s.become j party).parties.lookup k = some (.busy rest) := by
    rw [become, AList.lookup_insert_ne (Ne.symm hj), hparty]
  cases takes_of_step hup hstep with
  | enters j party origins hidle =>
      refine hbecome j party ?_
      rintro rfl
      exact hidle rest hparty
  | @acts j r =>
      refine hbecome j _ ?_
      rintro rfl
      exact hother r rfl
  | @finishes j r =>
      refine hbecome j _ ?_
      rintro rfl
      exact hother r rfl
  | works => exact hparty

/-- A party that is in the middle of something performs its next act. -/
theorem exists_of_own_busy {act : Act} {next : act.Result → Routine (Flow × Conn)} {r : Reading}
    (hparty : s.parties.lookup k = some (.busy (.call act next)))
    (hstep : s.step cfg (.own k r) = some s') :
    ∃ out, s.hub.attend r act = some out ∧
      s' = { s.become k (.settle (next out.1)) with hub := out.2 } := by
  rw [step, hparty] at hstep
  obtain ⟨out, hattend, heq⟩ := Option.map_eq_some_iff.mp hstep
  exact ⟨out, hattend, heq.symm⟩

/-- Every party asks for flushes by the act that is for it only. -/
def Quiet (s : System) : Prop := ∀ k party, s.parties.lookup k = some party → party.Quiet

theorem Quiet.become (hs : s.Quiet) (k : Nat) {party : Party} (hparty : party.Quiet) :
    (s.become k party).Quiet := by
  intro j other hother
  rw [System.become, AssocMap.lookup_insert] at hother
  split at hother
  · cases hother
    exact hparty
  · exact hs j other hother

/-- Every party that comes in is quiet, and stays so. -/
theorem Quiet.step (hs : s.Quiet) (hup : a.isRestart = false) (hstep : s.step cfg a = some s') :
    s'.Quiet := by
  cases takes_of_step hup hstep with
  | enters k party origins _ hquiet => exact hs.become k hquiet
  | @acts k r act next out hparty =>
      exact hs.become k (Party.quiet_settle ((hs k _ hparty).2 out.1))
  | @finishes k r act next out hparty =>
      have hrest : (Party.finishing (next out.1)).Quiet := (hs k _ hparty).2 out.1
      exact hs.become k hrest
  | works => exact hs

/-- What a step does to the disk. -/
theorem Quiet.moves (hs : s.Quiet) {d : Disk} (hdisk : s.hub.disk = some d)
    (hup : a.isRestart = false) (hstep : s.step cfg a = some s') :
    ∃ d', s'.hub.disk = some d' ∧ d.Moves a.ack? d' := by
  cases takes_of_step hup hstep with
  | enters => exact ⟨d, hdisk, .same _ d⟩
  | acts hparty hattend => exact Hub.attend_moves hdisk (hs _ _ hparty).1 hattend
  | finishes hparty hattend => exact Hub.attend_moves hdisk (hs _ _ hparty).1 hattend
  | works hwork =>
      obtain ⟨d₁, d', hd₁, hd', rfl⟩ := Hub.exists_of_work hwork
      rw [hdisk] at hd₁
      cases hd₁
      exact ⟨d', rfl, .works hd'⟩

/-- A broker with a store, where every flush was asked for on one of these channels. -/
structure Asks (used : List Nat) (s : System) (d : Disk) : Prop where
  quiet : s.Quiet
  disk : s.hub.disk = some d
  known : ∀ n, d.Asked n → n ∈ used

/-- A step uses up the one channel it names, if any. -/
theorem Asks.step {used : List Nat} {d : Disk} (hs : s.Asks used d) (hup : a.isRestart = false)
    (hstep : s.step cfg a = some s') :
    ∃ d', s'.Asks (used ++ a.ack?.toList) d' ∧ d.Moves a.ack? d' := by
  obtain ⟨d', hdisk', hmoves⟩ := hs.quiet.moves hs.disk hup hstep
  refine ⟨d', ⟨hs.quiet.step hup hstep, hdisk', fun n hasked => ?_⟩, hmoves⟩
  rcases hmoves.asked hasked with hold | hnew
  · exact List.mem_append_left _ (hs.known n hold)
  · rw [hnew]
    exact List.mem_append_right _ (List.mem_singleton_self n)

/-- A start, or a restart, knows of no flushes. -/
theorem asks_fresh (used : List Nat) (st : Storage) (retry : RetryConfig) (eventLogMax now : Nat)
    (origins : List Origin) :
    Asks used ⟨Hub.new (some st) retry eventLogMax now, ∅, origins⟩ ⟨st, [], []⟩ := by
  refine ⟨?_, rfl, ?_⟩
  · intro k party hparty
    cases hparty
  · rintro n (hmem | hmem)
    · cases hmem
    · cases hmem

/-- In a run every flush was asked for on a channel that a step named. -/
theorem Asks.run {used : List Nat} {d : Disk} {steps : List SystemStep} (hs : s.Asks used d)
    (hrun : Machine.run (System.step cfg) s steps = some s') :
    ∃ d', s'.Asks (used ++ steps.filterMap SystemStep.ack?) d' := by
  induction steps generalizing s used d with
  | nil =>
      cases hrun
      rw [List.filterMap_nil, List.append_nil]
      exact ⟨d, hs⟩
  | cons a steps ih =>
      obtain ⟨s₁, hstep, hrest⟩ := Machine.run_cons_eq_some.mp hrun
      have hfirst : ∃ d₁, s₁.Asks (used ++ a.ack?.toList) d₁ := by
        cases hup : a.isRestart with
        | false =>
            obtain ⟨d₁, hs₁, -⟩ := hs.step hup hstep
            exact ⟨d₁, hs₁⟩
        | true =>
            cases a with
            | restart applied retry eventLogMax now =>
                rw [System.step, hs.disk] at hstep
                cases hstep
                exact ⟨_, asks_fresh _ _ retry eventLogMax now s.origins⟩
            | _ => cases hup
      obtain ⟨d₁, hs₁⟩ := hfirst
      obtain ⟨d', hs'⟩ := ih hs₁ hrest
      rw [List.append_assoc, ← SystemStep.filterMap_ack_cons] at hs'
      exact ⟨d', hs'⟩

/-! ## One request among everything else -/

/-- How far a request has come that came in at the disk `d₀` and goes on as `rest` after
its flush. -/
inductive Stage (d₀ : Disk) (k : Nat) (rest : Routine (Flow × Conn)) (s : System) (d : Disk) :
    Prop where
  | asking (hparty : s.parties.lookup k = some (.busy (.call .flush (Routine.afterFlush rest))))
      (hst : d₀.Flushed d.settled)
  | waiting (ack : Nat)
      (hparty : s.parties.lookup k = some (.busy (.call (.acknowledged ack) fun _ => rest)))
      (hawaits : d₀.Awaits ack d)
  | past (hst : d₀.Flushed d.storage)

variable {d₀ : Disk} {rest : Routine (Flow × Conn)}

/-- The step lemma. -/
theorem Stage.step {used : List Nat} {d : Disk} (hstage : Stage d₀ k rest s d)
    (hs : s.Asks used d) (hfresh : ∀ n, a.ack? = some n → n ∉ used) (hup : a.isRestart = false)
    (hstep : s.step cfg a = some s') :
    ∃ d', s'.Asks (used ++ a.ack?.toList) d' ∧ Stage d₀ k rest s' d' := by
  obtain ⟨d', hs', hmoves⟩ := hs.step hup hstep
  refine ⟨d', hs', ?_⟩
  by_cases hown : ∃ r, a = .own k r
  · obtain ⟨r, rfl⟩ := hown
    cases hstage with
    | asking hparty hst =>
        obtain ⟨out, hattend, rfl⟩ := exists_of_own_busy hparty hstep
        simp only [Hub.attend, Hub.perform, hs.disk] at hattend
        cases hattend
        rw [Option.some.inj (hs'.disk.symm.trans (Hub.disk_flush hs.disk r.ack))]
        refine .waiting r.ack (AList.lookup_insert _) ?_
        exact Disk.awaits_enqueue hst fun hasked => hfresh r.ack rfl (hs.known _ hasked)
    | waiting ack hparty hawaits =>
        obtain ⟨out, hattend, rfl⟩ := exists_of_own_busy hparty hstep
        simp only [Hub.attend, Hub.perform, hs.disk, Option.mem_def, Option.some.injEq,
          exists_eq_left'] at hattend
        split at hattend
        next hack => exact .past (hmoves.flushed (hawaits.flushed hack))
        next => cases hattend
    | past hst => exact .past (hmoves.flushed hst)
  · have hother : ∀ r, a ≠ .own k r := fun r hr => hown ⟨r, hr⟩
    cases hstage with
    | asking hparty hst =>
        exact .asking (lookup_busy_step hparty hother hup hstep) (hmoves.flushed_settled hst)
    | waiting ack hparty hawaits =>
        exact .waiting ack (lookup_busy_step hparty hother hup hstep) (hmoves.awaits hawaits)
    | past hst => exact .past (hmoves.flushed hst)

/-- The run lemma. -/
theorem Stage.run {used : List Nat} {d : Disk} {steps : List SystemStep}
    (hstage : Stage d₀ k rest s d) (hs : s.Asks used d)
    (hfresh : (used ++ steps.filterMap SystemStep.ack?).Nodup)
    (hup : ∀ a ∈ steps, a.isRestart = false)
    (hrun : Machine.run (System.step cfg) s steps = some s') :
    ∃ d', s'.hub.disk = some d' ∧ Stage d₀ k rest s' d' := by
  induction steps generalizing s used d with
  | nil =>
      cases hrun
      exact ⟨d, hs.disk, hstage⟩
  | cons a steps ih =>
      obtain ⟨s₁, hstep, hrest⟩ := Machine.run_cons_eq_some.mp hrun
      rw [List.forall_mem_cons] at hup
      rw [SystemStep.filterMap_ack_cons, ← List.append_assoc] at hfresh
      have hnew : ∀ n, a.ack? = some n → n ∉ used := by
        intro n hn hmem
        rw [hn] at hfresh
        have hdisjoint := List.nodup_append.mp (List.nodup_append.mp hfresh).1
        exact hdisjoint.2.2 n hmem n (List.mem_singleton_self n) rfl
      obtain ⟨d₁, hs₁, hstage₁⟩ := hstage.step hs hnew hup.1 hstep
      exact ih hstage₁ hs₁ hfresh hup.2 hrest

/-! ## The worker gets there -/

def Serves (k : Nat) (a : SystemStep) : Prop := a = .work ∨ ∃ r, a = .own k r

def idle : Party → Bool
  | .waiting _ => true
  | _ => false

end System

end Relay
