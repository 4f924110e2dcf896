import Relay.Foundation.Roster
import Relay.Server.PacketIds

/-! # The messages of a session one by one

The in-flight queue as a roster: a message has a number from the delivery that records
it until it leaves the queue. Whatever is done to the session is kept as a turn, which
says what became of every message, which packet was sent to the channel for it, and
whether it was given up. A turn is tied to the session's own functions: their queue,
channel and dead messages are those that the records add up to.
-/

namespace Relay

open Roster (Record Follows)

/-- What the hub does to a session: a call, sending packets that belong to no queued
message, or the drain of a session that expires. -/
inductive Handling where
  | call (op : SessionOp)
  | pass (packets : List Packet)
  | drain

def Handling.keepsChannel : Handling → Bool
  | .call .attach => false
  | .call .detach => false
  | _ => true

/-- What is done for one message: the packet sent to the channel, and the dead message
that it is given up as. -/
structure Trace where
  packet : Option Packet
  dead : Option DeadMsg
deriving DecidableEq

def Trace.quiet : Trace := ⟨none, none⟩

namespace Session

/-- The session afterwards, with the dead messages handed back. -/
def handle (cfg : RetryConfig) (s : Session) : Handling → Option (Session × List DeadMsg)
  | .call (.tickRetries now) => some ((s.tickRetries now cfg).1, (s.tickRetries now cfg).2.1)
  | .call op => (s.step cfg op).map fun s' => (s', [])
  | .pass packets => some (packets.foldl send s, [])
  | .drain => some s.drainUndelivered

end Session

/-! ## What becomes of one message -/

def Inflight.ackedBy (pid : Nat) : Inflight → Bool
  | .qos1 p => p.packetId = some pid
  | _ => false

def Inflight.awaits (pid : Nat) : Inflight → Bool
  | .qos2AwaitRec p => p.packetId = some pid
  | _ => false

/-- The dead message that an entry becomes when its session expires. -/
def InflightEntry.drained (e : InflightEntry) : Option DeadMsg :=
  e.state.undelivered.bind fun p => if isDlqTopic p.topic then none else some ⟨p, e.attempts⟩

namespace Handling

variable (cfg : RetryConfig)

/-- The entry afterwards, and what was done for it. A PUBREC moves only the message that
it is taken for. -/
def fate (online : Bool) (taken : Option Nat) (n : Nat) (e : InflightEntry) :
    Handling → Option InflightEntry × Trace
  | .call (.retransmit now) =>
      (some { e with nextDue := now + backoff cfg (max e.attempts 1) },
        ⟨if online then some e.state.redelivery else none, none⟩)
  | .call (.onPuback pid) => (if e.state.ackedBy pid then none else some e, .quiet)
  | .call (.onPubrec pid) =>
      if taken = some n then
        (some { e with state := .qos2AwaitComp pid },
          ⟨if online then some (pubrel pid) else none, none⟩)
      else (some e, .quiet)
  | .call (.onPubcomp pid) => (if e.state = .qos2AwaitComp pid then none else some e, .quiet)
  | .call (.tickRetries now) =>
      (e.ticked now cfg, ⟨if online then e.tickedPacket now cfg else none, e.tickedDead now cfg⟩)
  | .drain => (if e.drained.isSome then none else some e, ⟨none, e.drained⟩)
  | _ => (some e, .quiet)

/-- The first message that awaits the PUBREC. -/
def taken (items : List (Nat × InflightEntry)) : Handling → Option Nat
  | .call (.onPubrec pid) => (items.find? fun x => x.2.state.awaits pid).map Prod.fst
  | _ => none

/-- The message that a QoS 1/2 delivery records. -/
def born (s : Session) : Handling → Option (InflightEntry × Trace)
  | .call (.deliver topic payload qos retain now) =>
      (s.entriesFor topic payload qos retain (now + backoff cfg 1)).head?.map fun e =>
        (e, ⟨if s.tx.isSome then some (.publish (s.publishFor topic payload qos retain)) else none,
          none⟩)
  | _ => none

/-- Packets that are not sent for a queued message: a QoS 0 delivery, the answer to a
PUBREC that no message awaits. -/
def others (s : Session) (taken : Option Nat) : Handling → List Packet
  | .call (.deliver topic payload qos retain _) =>
      if qos = .atMostOnce then [.publish (s.publishFor topic payload qos retain)] else []
  | .call (.onPubrec pid) => if taken.isSome ∨ pid = 0 then [] else [pubrel pid]
  | .pass packets => packets
  | _ => []

end Handling

/-! ## All that can become of a message -/

namespace Handling

/-- The handling does not concern the message. -/
def Spares (e : InflightEntry) : Handling → Prop
  | .call (.retransmit _) => False
  | .call (.onPuback pid) => e.state.ackedBy pid = false
  | .call (.onPubcomp pid) => e.state ≠ .qos2AwaitComp pid
  | .call (.tickRetries now) => now < e.nextDue
  | .drain => e.drained = none
  | _ => True

/-- What a handling may do to a message: the entry afterwards, and what is done for it. -/
inductive Move (cfg : RetryConfig) (online : Bool) (e : InflightEntry) :
    Handling → Option InflightEntry → Trace → Prop where
  | spared {hd : Handling} (spares : hd.Spares e) : Move cfg online e hd (some e) .quiet
  | resent (now : Nat) :
      Move cfg online e (.call (.retransmit now))
        (some { e with nextDue := now + backoff cfg (max e.attempts 1) })
        ⟨if online then some e.state.redelivery else none, none⟩
  | retried (now : Nat) (due : e.nextDue ≤ now) (alive : e.deadNow cfg = none) :
      Move cfg online e (.call (.tickRetries now)) (some (e.retried now cfg))
        ⟨if online then some e.state.redelivery else none, none⟩
  | acked (pid : Nat) (p : Publish) (state : e.state = .qos1 p) (packetId : p.packetId = some pid) :
      Move cfg online e (.call (.onPuback pid)) none .quiet
  | received (pid : Nat) (p : Publish) (state : e.state = .qos2AwaitRec p)
      (packetId : p.packetId = some pid) :
      Move cfg online e (.call (.onPubrec pid)) (some { e with state := .qos2AwaitComp pid })
        ⟨if online then some (pubrel pid) else none, none⟩
  | completed (pid : Nat) (state : e.state = .qos2AwaitComp pid) :
      Move cfg online e (.call (.onPubcomp pid)) none .quiet
  | died (now : Nat) (p : Publish) (due : e.nextDue ≤ now) (undelivered : e.state.undelivered = some p)
      (attempts : cfg.maxAttempts ≤ e.attempts) (outside : isDlqTopic p.topic = false) :
      Move cfg online e (.call (.tickRetries now)) none ⟨none, some ⟨p, e.attempts⟩⟩
  | drained (p : Publish) (undelivered : e.state.undelivered = some p)
      (outside : isDlqTopic p.topic = false) :
      Move cfg online e .drain none ⟨none, some ⟨p, e.attempts⟩⟩

/-- A message that a delivery records, and what is done for it. -/
inductive Birth (cfg : RetryConfig) (s : Session) :
    Handling → Option InflightEntry → Trace → Prop where
  | recorded (topic : String) (payload : Bytes) (qos : QoS) (retain : Bool) (now : Nat)
      (e : InflightEntry)
      (entry : s.entriesFor topic payload qos retain (now + backoff cfg 1) = [e]) :
      Birth cfg s (.call (.deliver topic payload qos retain now)) (some e)
        ⟨if s.tx.isSome then some (.publish (s.publishFor topic payload qos retain)) else none, none⟩

variable {cfg : RetryConfig} {online : Bool} {e : InflightEntry}

/-- The three outcomes of a tick are moves. -/
theorem move_tickRetries (now : Nat) :
    Move cfg online e (.call (.tickRetries now)) (e.ticked now cfg)
      ⟨if online then e.tickedPacket now cfg else none, e.tickedDead now cfg⟩ := by
  unfold InflightEntry.ticked InflightEntry.tickedPacket InflightEntry.tickedDead
  by_cases hdue : now < e.nextDue
  · simp only [if_pos hdue, ite_self]
    exact .spared hdue
  · simp only [if_neg hdue]
    cases hdead : e.deadNow cfg with
    | none =>
        simp only [Option.isSome_none, Bool.false_eq_true, if_false]
        exact .retried now (Nat.not_lt.mp hdue) hdead
    | some msg =>
        simp only [Option.isSome_some, if_true, ite_self]
        obtain ⟨p, hp, hmsg⟩ := Option.bind_eq_some_iff.mp hdead
        split at hmsg
        next hout =>
          cases hmsg
          exact .died now p (Nat.not_lt.mp hdue) hp hout.1 (Bool.eq_false_iff.mpr hout.2)
        next => cases hmsg

theorem move_drain : Move cfg online e .drain (if e.drained.isSome then none else some e)
    ⟨none, e.drained⟩ := by
  cases hdrained : e.drained with
  | none => exact .spared hdrained
  | some msg =>
      obtain ⟨p, hp, hmsg⟩ := Option.bind_eq_some_iff.mp hdrained
      split at hmsg
      · cases hmsg
      next hout =>
        cases hmsg
        exact .drained p hp (Bool.eq_false_iff.mpr hout)

/-- The fate of a message is one of its moves. -/
theorem move_fate {taken : Option Nat} {n : Nat} (hd : Handling)
    (htaken : ∀ pid, hd = .call (.onPubrec pid) → taken = some n → e.state.awaits pid = true) :
    Move cfg online e hd (hd.fate cfg online taken n e).1 (hd.fate cfg online taken n e).2 := by
  cases hd with
  | pass packets => exact .spared trivial
  | drain => exact move_drain
  | call op =>
      cases op with
      | attach => exact .spared trivial
      | detach => exact .spared trivial
      | deliver topic payload qos retain now => exact .spared trivial
      | retransmit now => exact .resent now
      | tickRetries now => exact move_tickRetries now
      | onPuback pid =>
          simp only [fate]
          split
          next hacked =>
            cases hstate : e.state with
            | qos1 p =>
                rw [hstate] at hacked
                exact .acked pid p hstate (of_decide_eq_true hacked)
            | _ => rw [hstate] at hacked; cases hacked
          next hnot => exact .spared (Bool.eq_false_iff.mpr hnot)
      | onPubrec pid =>
          simp only [fate]
          split
          next heq =>
            have hawaits := htaken pid rfl heq
            cases hstate : e.state with
            | qos2AwaitRec p =>
                rw [hstate] at hawaits
                exact .received pid p hstate (of_decide_eq_true hawaits)
            | _ => rw [hstate] at hawaits; cases hawaits
          next => exact .spared trivial
      | onPubcomp pid =>
          simp only [fate]
          split
          next hstate => exact .completed pid hstate
          next hne => exact .spared hne

end Handling

/-! ## The parts add up -/

namespace Session

/-- The source moves the first entry that awaits the PUBREC; by number this is one
message. -/
theorem awaitComp_eq (pid : Nat) (items : List (Nat × InflightEntry))
    (hsorted : (items.map Prod.fst).Pairwise (· < ·)) :
    awaitComp pid (items.map Prod.snd) =
      (items.find? fun x => x.2.state.awaits pid).map fun x => items.map fun y =>
        if x.1 = y.1 then { y.2 with state := .qos2AwaitComp pid } else y.2 := by
  induction items with
  | nil => rfl
  | cons y rest ih =>
      rw [List.map_cons, List.pairwise_cons] at hsorted
      -- a later message has another number than the first one
      have hskip : y.2.state.awaits pid = false →
          (awaitComp pid (rest.map Prod.snd)).map (y.2 :: ·) =
            ((y :: rest).find? fun x => x.2.state.awaits pid).map fun x =>
              (y :: rest).map fun z =>
                if x.1 = z.1 then { z.2 with state := .qos2AwaitComp pid } else z.2 := by
        intro hawaits
        rw [ih hsorted.2, List.find?_cons_of_neg (by simp [hawaits]), Option.map_map]
        refine Option.map_congr fun x hx => ?_
        have hne : x.1 ≠ y.1 :=
          (hsorted.1 x.1 (List.mem_map_of_mem (List.mem_of_find?_eq_some hx))).ne'
        simp [hne]
      rw [List.map_cons]
      unfold awaitComp
      split
      next p hstate =>
        split
        next hpid =>
          have hrest : (rest.map fun z =>
              if y.1 = z.1 then { z.2 with state := .qos2AwaitComp pid } else z.2) =
              rest.map Prod.snd := by
            refine List.map_congr_left fun z hz => ?_
            rw [if_neg (hsorted.1 z.1 (List.mem_map_of_mem hz)).ne]
          rw [List.find?_cons_of_pos (by simp [Inflight.awaits, hstate, hpid])]
          simp [hrest]
        next hpid => exact hskip (by simp [Inflight.awaits, hstate, hpid])
      next hstate =>
        refine hskip ?_
        cases hcase : y.2.state with
        | qos2AwaitRec p => exact absurd hcase (hstate p)
        | _ => rfl

/-- Queue, channel and dead messages after a handling, put together from the messages. -/
structure Parts (cfg : RetryConfig) (s s' : Session) (dead : List DeadMsg) (hd : Handling)
    (items : List (Nat × InflightEntry)) : Prop where
  queue : s'.inflight =
    (items.filterMap fun x => (hd.fate cfg s.tx.isSome (hd.taken items) x.1 x.2).1) ++
      ((hd.born cfg s).map Prod.fst).toList
  dead : dead = items.filterMap fun x => (hd.fate cfg s.tx.isSome (hd.taken items) x.1 x.2).2.dead
  channel : hd.keepsChannel = true → s'.tx = s.tx.map (· ++
    ((items.filterMap fun x => (hd.fate cfg s.tx.isSome (hd.taken items) x.1 x.2).2.packet) ++
      ((hd.born cfg s).bind (·.2.packet)).toList ++ hd.others s (hd.taken items)))
  born : ∀ b, hd.born cfg s = some b → b.2.dead = none

variable {cfg : RetryConfig} {s s' : Session} {dead : List DeadMsg}

/-- A handling that leaves every message as it is. -/
theorem parts_quiet {hd : Handling} {items : List (Nat × InflightEntry)}
    (hitems : items.map Prod.snd = s.inflight)
    (hfate : ∀ online taken n e, hd.fate cfg online taken n e = (some e, .quiet))
    (hborn : hd.born cfg s = none) (hqueue : s'.inflight = s.inflight)
    (hchannel : hd.keepsChannel = true →
      s'.tx = s.tx.map (· ++ hd.others s (hd.taken items))) :
    Parts cfg s s' [] hd items where
  queue := by
    simp only [hfate, hborn, hqueue, ← hitems, Option.map_none, Option.toList_none,
      List.append_nil, List.filterMap_eq_map']
  dead := by simp [hfate, Trace.quiet]
  channel hkeeps := by
    rw [hchannel hkeeps]
    simp [hfate, hborn, Trace.quiet]
  born b hb := by
    rw [hborn] at hb
    cases hb

/-- A handling that does the same to a message whatever its number. -/
theorem parts_uniform {hd : Handling} {items : List (Nat × InflightEntry)}
    (hitems : items.map Prod.snd = s.inflight) (keep : InflightEntry → Option InflightEntry)
    (packet : InflightEntry → Option Packet) (died : InflightEntry → Option DeadMsg)
    (hfate : ∀ online taken n e, hd.fate cfg online taken n e =
      (keep e, ⟨if online then packet e else none, died e⟩))
    (hborn : hd.born cfg s = none) (hothers : ∀ taken, hd.others s taken = [])
    (hqueue : s'.inflight = s.inflight.filterMap keep) (hdead : dead = s.inflight.filterMap died)
    (hchannel : s'.tx = s.tx.map (· ++ s.inflight.filterMap packet)) :
    Parts cfg s s' dead hd items where
  queue := by
    simp only [hfate, hborn, hqueue, ← hitems, Option.map_none, Option.toList_none,
      List.append_nil, List.filterMap_map, Function.comp_def]
  dead := by
    simp only [hfate, hdead, ← hitems, List.filterMap_map, Function.comp_def]
  channel _ := by
    rw [hchannel]
    cases htx : s.tx with
    | none => rfl
    | some sent =>
        simp only [hfate, hborn, hothers, ← hitems, Option.isSome_some, if_true, Option.bind_none,
          Option.toList_none, List.append_nil, List.filterMap_map, Function.comp_def]
  born b hb := by
    rw [hborn] at hb
    cases hb

/-- A delivery appends its message and sends it, or sends only. -/
theorem parts_deliver {items : List (Nat × InflightEntry)}
    (hitems : items.map Prod.snd = s.inflight) (topic : String) (payload : Bytes) (qos : QoS)
    (retain : Bool) (now : Nat) :
    Parts cfg s (s.received topic payload qos retain now cfg) []
      (.call (.deliver topic payload qos retain now)) items where
  queue := by
    simp only [Handling.fate, List.filterMap_eq_map', hitems]
    cases qos <;> rfl
  dead := by simp [Handling.fate, Trace.quiet]
  channel _ := by
    have hquiet : (items.filterMap fun x =>
        (Handling.fate cfg s.tx.isSome none x.1 x.2
          (.call (.deliver topic payload qos retain now))).2.packet) = [] := by
      simp [Handling.fate, Trace.quiet]
    simp only [Handling.taken, hquiet]
    cases htx : s.tx with
    | none => simp [received, htx]
    | some sent => cases qos <;> simp [received, htx, Handling.born, Handling.others, entriesFor]
  born b hb := by
    obtain ⟨e, -, rfl⟩ := Option.map_eq_some_iff.mp hb
    rfl

/-- A PUBREC concerns one message, or is answered without any. -/
theorem parts_onPubrec {items : List (Nat × InflightEntry)}
    (hitems : items.map Prod.snd = s.inflight)
    (hsorted : (items.map Prod.fst).Pairwise (· < ·)) (pid : Nat) :
    Parts cfg s (s.onPubrec pid) [] (.call (.onPubrec pid)) items := by
  have hawait := awaitComp_eq pid items hsorted
  rw [hitems] at hawait
  cases hfind : items.find? fun x => x.2.state.awaits pid with
  | none =>
      rw [hfind, Option.map_none] at hawait
      have hfate : ∀ x : Nat × InflightEntry, Handling.fate cfg s.tx.isSome none x.1 x.2
          (.call (.onPubrec pid)) = (some x.2, .quiet) := fun x => rfl
      have htaken : Handling.taken items (.call (.onPubrec pid)) = none := by
        simp [Handling.taken, hfind]
      refine ⟨?_, ?_, ?_, fun b hb => nomatch hb⟩
      · simp only [htaken, hfate, List.filterMap_eq_map', hitems, onPubrec, hawait]
        split <;> simp [send, Handling.born]
      · simp [htaken, hfate, Trace.quiet]
      · intro _
        simp only [htaken, hfate, onPubrec, hawait, Handling.others, Handling.born]
        split <;> cases htx : s.tx <;> simp [send, Trace.quiet, *]
  | some x =>
      rw [hfind, Option.map_some] at hawait
      have htaken : Handling.taken items (.call (.onPubrec pid)) = some x.1 := by
        simp [Handling.taken, hfind]
      have hx : x ∈ items := List.mem_of_find?_eq_some hfind
      refine ⟨?_, ?_, ?_, fun b hb => nomatch hb⟩
      · have hfate : ∀ y : Nat × InflightEntry, (Handling.fate cfg s.tx.isSome (some x.1) y.1 y.2
            (.call (.onPubrec pid))).1 =
              some (if x.1 = y.1 then { y.2 with state := .qos2AwaitComp pid } else y.2) := by
          intro y
          simp only [Handling.fate, Option.some.injEq]
          split <;> rfl
        simp only [htaken, hfate, onPubrec, hawait, send, Handling.born, List.filterMap_eq_map',
          Option.map_none, Option.toList_none, List.append_nil]
      · have hfate : ∀ y : Nat × InflightEntry, (Handling.fate cfg s.tx.isSome (some x.1) y.1 y.2
            (.call (.onPubrec pid))).2.dead = none := by
          intro y
          simp only [Handling.fate]
          split <;> rfl
        simp [htaken, hfate]
      · intro _
        cases htx : s.tx with
        | none => simp [onPubrec, hawait, send, htx]
        | some sent =>
            -- only the message that is taken has a packet
            have hfate : ∀ y : Nat × InflightEntry, (Handling.fate cfg true (some x.1) y.1 y.2
                (.call (.onPubrec pid))).2.packet = if x.1 = y.1 then some (pubrel pid) else none := by
              intro y
              simp only [Handling.fate, Option.some.injEq]
              split <;> rfl
            have hone : (items.filterMap fun y => if x.1 = y.1 then some (pubrel pid) else none) =
                [pubrel pid] := by
              obtain ⟨pre, post, rfl⟩ := List.append_of_mem hx
              rw [List.map_append, List.map_cons, List.pairwise_append, List.pairwise_cons] at hsorted
              obtain ⟨-, ⟨hpost, -⟩, hpre⟩ := hsorted
              have hpreNone : (pre.filterMap fun y =>
                  if x.1 = y.1 then some (pubrel pid) else none) = [] := by
                rw [List.filterMap_eq_nil_iff]
                intro y hy
                rw [if_neg (hpre y.1 (List.mem_map_of_mem hy) x.1 List.mem_cons_self).ne']
              have hpostNone : (post.filterMap fun y =>
                  if x.1 = y.1 then some (pubrel pid) else none) = [] := by
                rw [List.filterMap_eq_nil_iff]
                intro y hy
                rw [if_neg (hpost y.1 (List.mem_map_of_mem hy)).ne]
              rw [List.filterMap_append, List.filterMap_cons, if_pos rfl, hpreNone, hpostNone]
              rfl
            simp [onPubrec, hawait, send, htx, htaken, hfate, hone, Handling.born,
              Handling.others]

/-- Every handling is made of what it does to the messages. -/
theorem parts_of_handle {hd : Handling} {items : List (Nat × InflightEntry)}
    (hitems : items.map Prod.snd = s.inflight)
    (hsorted : (items.map Prod.fst).Pairwise (· < ·))
    (hhandle : s.handle cfg hd = some (s', dead)) : Parts cfg s s' dead hd items := by
  cases hd with
  | call op =>
      cases op with
      | attach =>
          cases hhandle
          exact parts_quiet hitems (fun _ _ _ _ => rfl) rfl rfl fun h => nomatch h
      | detach =>
          cases hhandle
          exact parts_quiet hitems (fun _ _ _ _ => rfl) rfl rfl fun h => nomatch h
      | deliver topic payload qos retain now =>
          obtain ⟨s₁, hdeliver, heq⟩ := Option.map_eq_some_iff.mp hhandle
          cases heq
          rw [step, deliver_eq] at hdeliver
          split at hdeliver
          · cases hdeliver
          · cases hdeliver
            exact parts_deliver hitems topic payload qos retain now
      | retransmit now =>
          cases hhandle
          refine parts_uniform hitems
            (fun e => some { e with nextDue := now + backoff cfg (max e.attempts 1) })
            (fun e => some e.state.redelivery) (fun _ => none) (fun _ _ _ _ => rfl) rfl
            (fun _ => rfl) ?_ (by simp) ?_
          · rw [List.filterMap_eq_map']
            rfl
          · rw [List.filterMap_eq_map']
            rfl
      | onPuback pid =>
          cases hhandle
          refine parts_uniform hitems (fun e => if e.state.ackedBy pid then none else some e)
            (fun _ => none) (fun _ => none) (fun _ _ _ _ => by simp [Handling.fate, Trace.quiet])
            rfl (fun _ => rfl) ?_ (by simp) ?_
          · rw [onPuback, ← List.filterMap_eq_filter]
            refine List.filterMap_congr fun e _ => ?_
            cases hstate : e.state with
            | qos1 p =>
                by_cases hpid : p.packetId = some pid <;>
                  simp [Option.guard, Inflight.ackedBy, hstate, hpid]
            | _ => simp [Option.guard, Inflight.ackedBy, hstate]
          · cases htx : s.tx <;> simp [onPuback, htx]
      | onPubrec pid =>
          cases hhandle
          exact parts_onPubrec hitems hsorted pid
      | onPubcomp pid =>
          cases hhandle
          refine parts_uniform hitems
            (fun e => if e.state = .qos2AwaitComp pid then none else some e)
            (fun _ => none) (fun _ => none) (fun _ _ _ _ => by simp [Handling.fate, Trace.quiet])
            rfl (fun _ => rfl) ?_ (by simp) ?_
          · rw [onPubcomp, ← List.filterMap_eq_filter]
            refine List.filterMap_congr fun e _ => ?_
            by_cases hstate : e.state = .qos2AwaitComp pid <;> simp [Option.guard, hstate]
          · cases htx : s.tx <;> simp [onPubcomp, htx]
      | tickRetries now =>
          cases hhandle
          rw [tickRetries_eq]
          exact parts_uniform hitems (·.ticked now cfg) (·.tickedPacket now cfg)
            (·.tickedDead now cfg) (fun _ _ _ _ => rfl) rfl (fun _ => rfl) rfl rfl rfl
  | pass packets =>
      cases hhandle
      rw [foldl_send]
      exact parts_quiet hitems (fun _ _ _ _ => rfl) rfl rfl fun _ => rfl
  | drain =>
      cases hhandle
      refine parts_uniform hitems (fun e => if e.drained.isSome then none else some e)
        (fun _ => none) (·.drained) (fun _ _ _ _ => by simp [Handling.fate])
        rfl (fun _ => rfl) ?_ rfl ?_
      · change s.inflight.filter (fun e => e.drained.isNone) = _
        rw [← List.filterMap_eq_filter]
        refine List.filterMap_congr fun e _ => ?_
        cases hdrained : e.drained <;> simp [Option.guard, hdrained]
      · change s.tx = _
        cases s.tx <;> simp

end Session

/-! ## Turns -/

structure Turn (cfg : RetryConfig) where
  handling : Handling
  before : Session
  after : Session
  dead : List DeadMsg
  records : List (Record InflightEntry Trace)
  /-- Packets that are not for a queued message. -/
  others : List Packet
  handled : before.handle cfg handling = some (after, dead)
  queued : records.filterMap Record.before = before.inflight
  left : records.filterMap Record.after = after.inflight
  died : (records.filterMap fun r => r.note.dead) = dead
  sent : handling.keepsChannel = true →
    after.tx = before.tx.map (· ++ ((records.filterMap fun r => r.note.packet) ++ others))

/-- A session whose messages are numbered, with everything done to it so far. -/
structure Watched (cfg : RetryConfig) where
  session : Session
  roster : Roster InflightEntry
  turns : List (Turn cfg)
  numbered : roster.items.map Prod.snd = session.inflight

namespace Watched

variable {cfg : RetryConfig}

/-- Start to watch a session; the messages in its queue are numbered from 0. -/
def start (cfg : RetryConfig) (s : Session) : Watched cfg :=
  ⟨s, .ofList s.inflight, [], Roster.map_snd_ofList s.inflight⟩

variable (w : Watched cfg) (hd : Handling)

def fate (n : Nat) (e : InflightEntry) : Option InflightEntry × Trace :=
  hd.fate cfg w.session.tx.isSome (hd.taken w.roster.items) n e

def records : List (Record InflightEntry Trace) :=
  w.roster.records (w.fate hd) (hd.born cfg w.session)

variable {w hd} {s' : Session} {dead : List DeadMsg}

theorem parts (hhandle : w.session.handle cfg hd = some (s', dead)) :
    Session.Parts cfg w.session s' dead hd w.roster.items :=
  Session.parts_of_handle w.numbered w.roster.sorted hhandle

theorem filterMap_note_records {γ : Type} (f : Trace → Option γ) :
    ((w.records hd).filterMap fun r => f r.note) =
      (w.roster.items.filterMap fun x => f (w.fate hd x.1 x.2).2) ++
        ((hd.born cfg w.session).bind fun b => f b.2).toList := by
  unfold records Roster.records
  rw [List.filterMap_append, List.filterMap_map]
  congr 1
  cases hd.born cfg w.session with
  | none => rfl
  | some b => cases hb : f b.2 <;> simp [hb]

def turn (hhandle : w.session.handle cfg hd = some (s', dead)) : Turn cfg where
  handling := hd
  before := w.session
  after := s'
  dead := dead
  records := w.records hd
  others := hd.others w.session (hd.taken w.roster.items)
  handled := hhandle
  queued := (w.roster.filterMap_before_records _ _).trans w.numbered
  left := by
    rw [records, Roster.filterMap_after_records, Roster.map_snd_advance]
    exact (parts hhandle).queue.symm
  died := by
    have hnone : ((hd.born cfg w.session).bind fun b => b.2.dead) = none := by
      cases hborn : hd.born cfg w.session with
      | none => rfl
      | some b => exact (parts hhandle).born b hborn
    rw [filterMap_note_records, hnone, (parts hhandle).dead]
    exact List.append_nil _
  sent hkeeps := by
    rw [filterMap_note_records]
    exact (parts hhandle).channel hkeeps

def after (hhandle : w.session.handle cfg hd = some (s', dead)) : Watched cfg where
  session := s'
  roster := w.roster.advance (w.fate hd) (hd.born cfg w.session)
  turns := w.turns ++ [turn hhandle]
  numbered := by
    rw [Roster.map_snd_advance]
    exact (parts hhandle).queue.symm

variable (w hd)

/-- Do something to the session. -/
def step : Option (Watched cfg) :=
  match hhandle : w.session.handle cfg hd with
  | none => none
  | some _ => some (after hhandle)

variable {w hd} {w' : Watched cfg}

/-- A step of the watch is something done to the session. -/
theorem exists_of_step (hstep : w.step hd = some w') :
    ∃ s' dead, ∃ hhandle : w.session.handle cfg hd = some (s', dead), w' = after hhandle := by
  unfold step at hstep
  split at hstep
  · cases hstep
  next out hhandle =>
    cases hstep
    exact ⟨out.1, out.2, hhandle, rfl⟩

theorem step_eq (hhandle : w.session.handle cfg hd = some (s', dead)) :
    w.step hd = some (after hhandle) := by
  unfold step
  split
  next hnone =>
    rw [hhandle] at hnone
    cases hnone
  next out hsome =>
    obtain rfl := Option.some.inj (hhandle.symm.trans hsome)
    rfl

/-! ## The records of one turn -/

section Records

variable {r : Record InflightEntry Trace} {e : InflightEntry}

/-- The record of a message in the queue is its fate. -/
theorem mem_items_of_record (hr : r ∈ w.records hd) (hbefore : r.before = some e) :
    (r.name, e) ∈ w.roster.items ∧ w.fate hd r.name e = (r.after, r.note) := by
  rcases (Roster.mem_records_iff _ _ _).mp hr with ⟨x, hx, rfl⟩ | ⟨b, -, rfl⟩
  · cases hbefore
    exact ⟨hx, rfl⟩
  · cases hbefore

/-- A message that was in the queue makes one of its moves. -/
theorem move_of_record (hr : r ∈ w.records hd) (hbefore : r.before = some e) :
    hd.Move cfg w.session.tx.isSome e r.after r.note := by
  obtain ⟨hmem, hfate⟩ := mem_items_of_record hr hbefore
  have htaken : ∀ pid, hd = .call (.onPubrec pid) → hd.taken w.roster.items = some r.name →
      e.state.awaits pid = true := by
    rintro pid rfl heq
    obtain ⟨x, hfind, hname⟩ := Option.map_eq_some_iff.mp heq
    obtain ⟨m, e'⟩ := x
    obtain rfl : m = r.name := hname
    rw [w.roster.eq_of_mem hmem (List.mem_of_find?_eq_some hfind)]
    have hawaits := List.find?_some hfind
    exact hawaits
  have hmove : hd.Move cfg w.session.tx.isSome e (w.fate hd r.name e).1 (w.fate hd r.name e).2 :=
    Handling.move_fate hd htaken
  rwa [hfate] at hmove

/-- A message that was not in the queue is the one that a delivery records. -/
theorem birth_of_record (hr : r ∈ w.records hd) (hbefore : r.before = none) :
    hd.Birth cfg w.session r.after r.note := by
  rcases (Roster.mem_records_iff _ _ _).mp hr with ⟨x, -, rfl⟩ | ⟨b, hb, rfl⟩
  · cases hbefore
  · cases hd with
    | call op =>
        cases op with
        | deliver topic payload qos retain now =>
            obtain ⟨e, hhead, rfl⟩ := Option.map_eq_some_iff.mp hb
            refine .recorded topic payload qos retain now e ?_
            cases qos with
            | atMostOnce => cases hhead
            | _ => cases hhead; rfl
        | _ => cases hb
    | _ => cases hb

end Records

end Watched

/-! ## Runs -/

def Packet.publish? : Packet → Option Publish
  | .publish p => some p
  | .publishRelease _ => none

/-- The PUBLISH packets among the packets of a message. -/
def publishesOf (records : List (Record InflightEntry Trace)) : List Publish :=
  records.filterMap fun r => r.note.packet.bind Packet.publish?

/-- Each message of a turn has one record, which is one of its moves or its birth. -/
structure Turn.Lawful {cfg : RetryConfig} (t : Turn cfg) : Prop where
  names : (t.records.map Record.name).Nodup
  move : ∀ r ∈ t.records, ∀ e, r.before = some e →
    t.handling.Move cfg t.before.tx.isSome e r.after r.note
  birth : ∀ r ∈ t.records, r.before = none → t.handling.Birth cfg t.before r.after r.note

namespace Watched

variable {cfg : RetryConfig}

def history (w : Watched cfg) : List (Record InflightEntry Trace) :=
  w.turns.flatMap Turn.records

def publishes (w : Watched cfg) (n : Nat) : List Publish :=
  publishesOf (w.history.filter (·.name = n))

/-- The turns account for every message, from the queue at the start to the queue now. -/
structure Account (s : Session) (w : Watched cfg) : Prop where
  follows : Follows (Roster.ofList s.inflight).status w.history w.roster.status
  lawful : ∀ t ∈ w.turns, t.Lawful

/-- Nothing has been done yet. -/
theorem account_start (s : Session) : Account s (start cfg s) :=
  ⟨.nil _, fun _ ht => nomatch ht⟩

theorem history_after {w : Watched cfg} {hd : Handling} {s' : Session} {dead : List DeadMsg}
    (hhandle : w.session.handle cfg hd = some (s', dead)) :
    (after hhandle).history = w.history ++ w.records hd := by
  simp [history, after, turn]

theorem publishes_after {w : Watched cfg} {hd : Handling} {s' : Session} {dead : List DeadMsg}
    (hhandle : w.session.handle cfg hd = some (s', dead)) (n : Nat) :
    (after hhandle).publishes n =
      w.publishes n ++ publishesOf ((w.records hd).filter (·.name = n)) := by
  rw [publishes, history_after, List.filter_append, publishesOf, List.filterMap_append]
  rfl

/-- The turn of a step takes up every message where the turns before left it. -/
theorem Account.step {s : Session} {w w' : Watched cfg} {hd : Handling} (hw : w.Account s)
    (hstep : w.step hd = some w') : w'.Account s := by
  obtain ⟨s', dead, hhandle, rfl⟩ := exists_of_step hstep
  refine ⟨?_, ?_⟩
  · rw [history_after]
    exact hw.follows.append (w.roster.follows_records _ _)
  · intro t ht
    rcases List.mem_append.mp ht with hold | hnew
    · exact hw.lawful t hold
    · rw [List.mem_singleton.mp hnew]
      exact ⟨w.roster.nodup_name_records _ _, fun _ hr _ => move_of_record hr,
        fun _ hr => birth_of_record hr⟩

end Watched

end Relay
