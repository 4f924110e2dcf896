import Relay.Server.Session

/-! # The retry loop as one pass

`tick_retries` walks the queue by index and removes entries while it walks. Its
effect is that of looking at every entry once, in order: an entry that is not
due is kept as it is, one that is out of attempts leaves the queue as a dead
message, and any other due entry is redelivered.
-/

namespace Relay

namespace InflightEntry

variable (now : Nat) (cfg : RetryConfig)

def due (e : InflightEntry) : Bool := e.nextDue ≤ now

/-- What stays in the queue for an entry. -/
def ticked (e : InflightEntry) : Option InflightEntry :=
  if now < e.nextDue then some e
  else if (e.deadNow cfg).isSome then none
  else some (e.retried now cfg)

/-- The dead message an entry becomes, if it does. -/
def tickedDead (e : InflightEntry) : Option DeadMsg :=
  if now < e.nextDue then none else e.deadNow cfg

/-- The packet an entry is redelivered with, if it is. -/
def tickedPacket (e : InflightEntry) : Option Packet :=
  if now < e.nextDue then none
  else if (e.deadNow cfg).isSome then none
  else some e.state.redelivery

end InflightEntry

open InflightEntry

/-- From the index on, the loop processes every entry once. -/
theorem TickState.loop_eq (now : Nat) (cfg : RetryConfig) (rest : List InflightEntry)
    (fuel : Nat) (hfuel : rest.length ≤ fuel) (pre : List InflightEntry)
    (dead : List DeadMsg) (toSend : List Packet) (changed : Bool) :
    TickState.loop now cfg fuel ⟨pre ++ rest, pre.length, dead, toSend, changed⟩ =
      ⟨pre ++ rest.filterMap (ticked now cfg), (pre ++ rest.filterMap (ticked now cfg)).length,
        dead ++ rest.filterMap (tickedDead now cfg),
        toSend ++ rest.filterMap (tickedPacket now cfg), changed || rest.any (due now)⟩ := by
  induction rest generalizing fuel pre dead toSend changed with
  | nil => cases fuel <;> simp [TickState.loop]
  | cons e rest ih =>
      cases fuel with
      | zero => simp at hfuel
      | succ fuel =>
          simp only [List.length_cons, Nat.add_le_add_iff_right] at hfuel
          have hget : (pre ++ e :: rest)[pre.length]? = some e := by simp
          simp only [TickState.loop, hget]
          split
          next hnot =>
            -- not due: the entry joins the part already walked over
            have hstep := ih fuel hfuel (pre ++ [e]) dead toSend changed
            simp only [List.append_assoc, List.singleton_append, List.length_append,
              List.length_singleton] at hstep
            rw [hstep]
            simp [ticked, tickedDead, tickedPacket, due, hnot, Nat.not_le.mpr hnot]
          next hdue =>
            cases hdead : e.deadNow cfg with
            | some msg =>
                have herase : (pre ++ e :: rest).eraseIdx pre.length = pre ++ rest := by
                  rw [List.eraseIdx_append_of_length_le (Nat.le_refl _)]
                  simp
                simp only [herase]
                rw [ih fuel hfuel pre (dead ++ [msg]) toSend true]
                simp [ticked, tickedDead, tickedPacket, due, hdue, hdead, Nat.not_lt.mp hdue]
            | none =>
                have hset : (pre ++ e :: rest).set pre.length (e.retried now cfg) =
                    (pre ++ [e.retried now cfg]) ++ rest := by
                  simp
                have hstep := ih fuel hfuel (pre ++ [e.retried now cfg]) dead
                  (toSend ++ [e.state.redelivery]) true
                simp only [List.length_append, List.length_singleton] at hstep
                simp only [hset]
                rw [hstep]
                simp [ticked, tickedDead, tickedPacket, due, hdue, hdead, Nat.not_lt.mp hdue]
                omega

namespace Session

/-- The retry tick of a session, entry by entry. -/
theorem tickRetries_eq (s : Session) (now : Nat) (cfg : RetryConfig) :
    s.tickRetries now cfg =
      ({ s with
          inflight := s.inflight.filterMap (ticked now cfg)
          tx := s.tx.map (· ++ s.inflight.filterMap (tickedPacket now cfg)) },
        s.inflight.filterMap (tickedDead now cfg), s.inflight.any (due now)) := by
  have hloop := TickState.loop_eq now cfg s.inflight s.inflight.length (Nat.le_refl _)
    [] [] [] false
  simp only [List.nil_append, List.length_nil, Bool.false_or] at hloop
  simp only [tickRetries, hloop]

end Session

/-! ## Against the specification -/

/-- What one pass over a queue leaves, gives up and sends, and whether it found
anything due. -/
structure Pass where
  kept : List InflightEntry
  dead : List DeadMsg
  packets : List Packet
  changed : Bool
deriving DecidableEq

namespace Pass

def giveUp (pass : Pass) (msg : DeadMsg) : Pass :=
  { pass with dead := msg :: pass.dead, changed := true }

def sendAgain (pass : Pass) (e : InflightEntry) (packet : Packet) : Pass :=
  { pass with kept := e :: pass.kept, packets := packet :: pass.packets, changed := true }

/-- Every entry is looked at once, in order. A PUBLISH outside the dead-letter
namespace that has had its attempts is given up when it is due; anything else that
is due is sent again, a PUBLISH as a duplicate. -/
def through (now : Nat) (cfg : RetryConfig) : List InflightEntry → Pass
  | [] => ⟨[], [], [], false⟩
  | e :: rest =>
      let pass := through now cfg rest
      let next : InflightEntry := ⟨e.state, e.attempts + 1, now + backoff cfg (e.attempts + 1)⟩
      let onPublish (p : Publish) : Pass :=
        if cfg.maxAttempts ≤ e.attempts ∧ isDlqTopic p.topic = false then pass.giveUp ⟨p, e.attempts⟩
        else pass.sendAgain next (.publish { p with dup := true })
      if now < e.nextDue then { pass with kept := e :: pass.kept }
      else
        match e.state with
        | .qos1 p => onPublish p
        | .qos2AwaitRec p => onPublish p
        | .qos2AwaitComp pid => pass.sendAgain next (pubrel pid)

theorem through_not_due {now : Nat} {e : InflightEntry} (hnot : now < e.nextDue) (cfg : RetryConfig)
    (rest : List InflightEntry) :
    through now cfg (e :: rest) =
      { through now cfg rest with kept := e :: (through now cfg rest).kept } := by
  rw [through, if_pos hnot]

theorem through_dead {now : Nat} {cfg : RetryConfig} {e : InflightEntry} {msg : DeadMsg}
    (hdue : ¬ now < e.nextDue) (hdead : e.deadNow cfg = some msg) (rest : List InflightEntry) :
    through now cfg (e :: rest) = (through now cfg rest).giveUp msg := by
  obtain ⟨state, attempts, nextDue⟩ := e
  rw [through, if_neg hdue]
  cases state <;> simp_all [InflightEntry.deadNow, Inflight.undelivered]

theorem through_again {now : Nat} {cfg : RetryConfig} {e : InflightEntry}
    (hattempts : e.attempts + 1 < u32Bound) (hdue : ¬ now < e.nextDue)
    (halive : e.deadNow cfg = none) (rest : List InflightEntry) :
    through now cfg (e :: rest) =
      (through now cfg rest).sendAgain (e.retried now cfg) e.state.redelivery := by
  obtain ⟨state, attempts, nextDue⟩ := e
  have hwrap : (attempts + 1) % u32Bound = attempts + 1 := Nat.mod_eq_of_lt hattempts
  rw [through, if_neg hdue]
  cases state <;>
    simp_all [InflightEntry.deadNow, Inflight.undelivered, InflightEntry.retried,
      Inflight.redelivery]

/-- The pass entry by entry, as long as no counter overflows. -/
theorem through_eq {now : Nat} {cfg : RetryConfig} {queue : List InflightEntry}
    (hattempts : ∀ e ∈ queue, e.attempts + 1 < u32Bound) :
    through now cfg queue =
      ⟨queue.filterMap (ticked now cfg), queue.filterMap (tickedDead now cfg),
        queue.filterMap (tickedPacket now cfg), queue.any (due now)⟩ := by
  induction queue with
  | nil => rfl
  | cons e rest ih =>
      obtain ⟨hhead, hrest⟩ := List.forall_mem_cons.mp hattempts
      by_cases hnot : now < e.nextDue
      · rw [through_not_due hnot, ih hrest]
        simp [ticked, tickedDead, tickedPacket, due, hnot, Nat.not_le.mpr hnot]
      · cases hdead : e.deadNow cfg with
        | some msg =>
            rw [through_dead hnot hdead, ih hrest]
            simp [giveUp, ticked, tickedDead, tickedPacket, due, hnot, hdead, Nat.not_lt.mp hnot]
        | none =>
            rw [through_again hhead hnot hdead, ih hrest]
            simp [sendAgain, ticked, tickedDead, tickedPacket, due, hnot, hdead,
              Nat.not_lt.mp hnot]

theorem changed_through {now : Nat} {cfg : RetryConfig} {queue : List InflightEntry}
    (hattempts : ∀ e ∈ queue, e.attempts + 1 < u32Bound) :
    (through now cfg queue).changed = true ↔ ∃ e ∈ queue, e.nextDue ≤ now := by
  rw [through_eq hattempts]
  simp [due]

/-- Every entry is kept or given up. -/
theorem length_through (now : Nat) (cfg : RetryConfig) (queue : List InflightEntry) :
    (through now cfg queue).kept.length + (through now cfg queue).dead.length = queue.length := by
  induction queue with
  | nil => rfl
  | cons e rest ih =>
      rw [List.length_cons, ← ih]
      simp only [through]
      repeat' split
      all_goals
        simp only [giveUp, sendAgain, List.length_cons]
        omega

end Pass

namespace Session

/-- The loop of `tick_retries` comes to the end of the queue, and the tick does what
one pass over the queue does. -/
theorem tickRetries_onePass (s : Session) (now : Nat) (cfg : RetryConfig)
    (hattempts : ∀ e ∈ s.inflight, e.attempts < u32Bound - 1) :
    let pass := Pass.through now cfg s.inflight
    (∀ fuel, s.inflight.length ≤ fuel →
      TickState.loop now cfg fuel ⟨s.inflight, 0, [], [], false⟩ =
        ⟨pass.kept, pass.kept.length, pass.dead, pass.packets, pass.changed⟩) ∧
    s.tickRetries now cfg =
      ({ s with inflight := pass.kept, tx := s.tx.map (· ++ pass.packets) }, pass.dead,
        pass.changed) ∧
    (pass.changed = true ↔ ∃ e ∈ s.inflight, e.nextDue ≤ now) ∧
    pass.kept.length + pass.dead.length = s.inflight.length := by
  have hbound : ∀ e ∈ s.inflight, e.attempts + 1 < u32Bound := by
    intro e he
    have hlt := hattempts e he
    omega
  refine ⟨fun fuel hfuel => ?_, ?_, Pass.changed_through hbound, Pass.length_through now cfg s.inflight⟩
  · have hloop := TickState.loop_eq now cfg s.inflight fuel hfuel [] [] [] false
    rw [Pass.through_eq hbound]
    simpa using hloop
  · rw [Pass.through_eq hbound, tickRetries_eq]

/-- One message is not due, one is out of attempts, one is sent again. -/
theorem tickRetries_onePass_mixed :
    let publish (pid : Nat) := makePublish "t" [] .atLeastOnce (some pid) false false
    let s : Session := { Session.new "c" (some []) 60 0 with
      inflight := [⟨.qos1 (publish 1), 1, 20⟩, ⟨.qos1 (publish 2), 5, 3⟩,
        ⟨.qos2AwaitComp 3, 5, 3⟩] }
    let pass := Pass.through 10 ⟨5, 5, 60⟩ s.inflight
    pass.kept = [⟨.qos1 (publish 1), 1, 20⟩, ⟨.qos2AwaitComp 3, 6, 70⟩] ∧
      s.tickRetries 10 ⟨5, 5, 60⟩ =
        ({ s with inflight := pass.kept, tx := some [pubrel 3] }, [⟨publish 2, 5⟩], true) := by
  intro publish s pass
  have hpass := (tickRetries_onePass s 10 ⟨5, 5, 60⟩ (by decide)).2.1
  exact ⟨by decide, hpass.trans (by decide)⟩

end Session

end Relay
