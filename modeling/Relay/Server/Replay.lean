import Relay.Server.EventLog
import Relay.Server.Queues

/-! # Replay

A replay request waits for a flush and then reads the log. Publishers, the
worker and everything else in the broker go on meanwhile. What the request sends
is the part of the log from its offset on that matches its filter, and the log it
reads has everything that was journalled before the flush and not pruned.
-/

namespace Relay

/-! ## What a replay sends -/

/-- The PUBLISH that replays a logged event. -/
def Event.packet (r : Nat × Event) : Packet :=
  .publish
    { dup := false, retain := false, qos := .atMostOnce, topic := r.2.topic, packetId := none
      payload := r.2.payload
      properties := { PublishProperties.default with
        userProperties := [("x-replay-offset", toString r.1)] } }

/-- The rows of a log that a replay from an offset selects. -/
def selected (rows : List (Nat × Event)) (start : Nat) (filter : TopicFilter) :
    List (Nat × Event) :=
  rows.filter fun r => start ≤ r.1 ∧ filter.matchesTopic r.2.topic

theorem selected_cons (r : Nat × Event) (rows : List (Nat × Event)) (start : Nat)
    (filter : TopicFilter) :
    selected (r :: rows) start filter =
      if start ≤ r.1 ∧ filter.matchesTopic r.2.topic then r :: selected rows start filter
      else selected rows start filter := by
  simp only [selected, List.filter_cons, decide_eq_true_eq]

theorem Hub.replayPacket_row {r : Nat × Event} (hfits : r.2.Fits) (filter : TopicFilter) :
    replayPacket filter (Event.row r) =
      if filter.matchesTopic r.2.topic then some (Event.packet r) else none := by
  simp only [replayPacket, Event.row, Event.blob, decodeEvent_encodeEvent _ hfits,
    Option.bind_eq_bind, Option.bind_some]
  rfl

namespace Hub

/-- The source filters encoded rows; on the events this is the selection. -/
theorem filterMap_replayPacket {rows : List (Nat × Event)} (hfits : ∀ r ∈ rows, r.2.Fits)
    (start : Nat) (filter : TopicFilter) :
    ((rows.map Event.row).filter fun row => start ≤ row.1).filterMap (replayPacket filter) =
      (selected rows start filter).map Event.packet := by
  induction rows with
  | nil => rfl
  | cons r rows ih =>
      have hpacket := replayPacket_row (hfits r List.mem_cons_self) filter
      have hrest := ih fun r hr => hfits r (List.mem_cons_of_mem _ hr)
      have hrow : (Event.row r).1 = r.1 := rfl
      simp only [selected] at hrest ⊢
      by_cases hstart : start ≤ r.1
      · by_cases hmatch : filter.matchesTopic r.2.topic
        · simp [hrow, hstart, hmatch, hpacket, hrest]
        · simp [hrow, hstart, hmatch, hpacket, hrest]
      · simp [hrow, hstart, hrest]

/-- A replay sends the selected rows of the log, in order. -/
theorem replay_eq {h : Hub} {d : Disk} {rows : List (Nat × Event)} (hdisk : h.disk = some d)
    (hrows : d.storage.events.toList = rows.map Event.row) (hfits : ∀ r ∈ rows, r.2.Fits)
    {id : ClientId} {s : Session} (hs : h.sessions.byId.lookup id = some s) (start : Nat)
    (filter : TopicFilter) :
    h.replay id start filter =
      ((selected rows start filter).length,
        h.setSession id
          { s with tx := s.tx.map (· ++ (selected rows start filter).map Event.packet) }) := by
  simp only [replay, hdisk, hs, Storage.loadEvents, Table.range, hrows,
    filterMap_replayPacket hfits, Session.foldl_send, List.length_map]

end Hub

/-- Two replays that split the offsets select what one replay selects. -/
theorem selected_split (rows : List (Nat × Event)) (hsorted : rows.Pairwise fun a b => a.1 < b.1)
    {start k : Nat} (hk : start ≤ k + 1) (filter : TopicFilter) :
    ((selected rows start filter).filter fun r => r.1 ≤ k) ++ selected rows (k + 1) filter =
      selected rows start filter := by
  induction rows with
  | nil => rfl
  | cons r rows ih =>
      rw [List.pairwise_cons] at hsorted
      -- the rows are sorted, so the first row past `k` ends the first replay
      by_cases hle : r.1 ≤ k
      · have hnot : ¬ k + 1 ≤ r.1 := by omega
        have hsecond : selected (r :: rows) (k + 1) filter = selected rows (k + 1) filter := by
          rw [selected_cons, if_neg fun h => hnot h.1]
        rw [hsecond, selected_cons]
        split
        · rw [List.filter_cons, if_pos (decide_eq_true hle), List.cons_append, ih hsorted.2]
        · exact ih hsorted.2
      · -- every row from here on is past the first replay
        have hpast : ∀ r' ∈ r :: rows, k + 1 ≤ r'.1 := by
          intro r' hr'
          rcases List.mem_cons.mp hr' with rfl | hr'
          · omega
          · have := hsorted.1 r' hr'
            omega
        have hnil : ((selected (r :: rows) start filter).filter fun r => r.1 ≤ k) = [] := by
          rw [List.filter_eq_nil_iff]
          intro r' hr'
          have := hpast r' (List.mem_of_mem_filter hr')
          simp only [decide_eq_true_eq]
          omega
        rw [hnil, List.nil_append]
        refine List.filter_congr fun r' hr' => ?_
        have hlow := hpast r' hr'
        simp [hlow, Nat.le_trans hk hlow]

/-! ## Everything else in the broker -/

/-- Writes other than events and flushes. -/
def PersistOp.Plain (op : PersistOp) : Prop := op.event? = none ∧ op.ack? = none

namespace Hub

/-- Only plain writes are queued. -/
abbrev QueuesPlain (h h' : Hub) : Prop := QueuesAll PersistOp.Plain h h'

end Hub

/-- Sections that queue an event or a flush, or perform queued writes. -/
def Section.onQueue : Section → Bool
  | .enqueue op => op.event?.isSome || op.ack?.isSome
  | .work => true
  | _ => false

namespace Hub

/-- Any other section queues only plain writes. -/
theorem act_queuesPlain {h h' : Hub} {a : Section} (ha : a.onQueue = false)
    (hact : h.act a = some h') : QueuesPlain h h' := by
  refine queuesAll_act (fun _ _ _ => ⟨rfl, rfl⟩) (fun _ => ⟨rfl, rfl⟩) ?_ ?_ hact
  · rintro rfl
    cases ha
  · rintro op rfl
    obtain ⟨hevent, hack⟩ := Bool.or_eq_false_iff.mp ha
    exact ⟨by simpa using hevent, by simpa using hack⟩

end Hub

/-! ## Publishers, flushes and the worker -/

inductive LogStep where
  | publish (e : Event)
  | flush (ack : Nat)
  | work
  | other (a : Section)

def LogStep.ack? : LogStep → Option Nat
  | .flush ack => some ack
  | _ => none

/-- The event that a step journals. -/
def LogStep.event? (eventLogMax : Nat) : LogStep → Option Event
  | .publish e =>
      if 0 < eventLogMax ∧ ¬ Text.startsWithChar '$' e.topic then some e else none
  | _ => none

def journalled (eventLogMax : Nat) (steps : List LogStep) : List Event :=
  steps.filterMap (LogStep.event? eventLogMax)

theorem journalled_append (eventLogMax : Nat) (before after : List LogStep) :
    journalled eventLogMax (before ++ after) =
      journalled eventLogMax before ++ journalled eventLogMax after :=
  List.filterMap_append

theorem LogStep.pos_of_event? {eventLogMax : Nat} {a : LogStep} {e : Event}
    (ha : a.event? eventLogMax = some e) : 0 < eventLogMax := by
  cases a with
  | publish e' =>
      simp only [event?] at ha
      split at ha
      next hlogged => exact hlogged.1
      · cases ha
  | flush _ => cases ha
  | work => cases ha
  | other _ => cases ha

namespace Hub

def logStep (h : Hub) : LogStep → Option Hub
  | .publish e => some (h.journal e.topic e.payload e.qos e.ts)
  | .flush ack => some (h.flush ack)
  | .work => h.work
  | .other a => if a.onQueue then none else h.act a

def acks (h : Hub) : List Nat := (h.disk.map Disk.acks).getD []

/-- One step, seen from the disk the run started on. -/
theorem logStep_serves {d₀ d : Disk} {h h' : Hub} {a : LogStep} {ops : List PersistOp}
    (hdisk : h.disk = some d) (hserves : d₀.Serves ops d) (hstep : h.logStep a = some h') :
    ∃ more d', h'.disk = some d' ∧ d₀.Serves (ops ++ more) d' ∧ h'.eventLogMax = h.eventLogMax ∧
      more.filterMap PersistOp.event? =
        (a.event? h.eventLogMax).toList.map (fun e => (e.blob, h.eventLogMax)) ∧
      more.filterMap PersistOp.ack? = a.ack?.toList := by
  -- what queueing some writes comes to
  have hqueued : ∀ (h' : Hub) (more : List PersistOp), Queues h more h' →
      ∃ d', h'.disk = some d' ∧ d₀.Serves (ops ++ more) d' ∧ h'.eventLogMax = h.eventLogMax := by
    intro h' more hqueues
    refine ⟨{ d with queue := d.queue ++ more }, ?_, hserves.enqueue more, hqueues.eventLogMax⟩
    rw [hqueues.disk, hdisk, Option.map_some]
  cases a with
  | publish e =>
      cases hstep
      simp only [journal, LogStep.event?]
      split
      · obtain ⟨d', hd', hserves', hmax⟩ := hqueued _ _ ((queues_nil rfl rfl).enqueue
          (.appendEvent (encodeEvent e.ts e.topic e.qos e.payload) h.eventLogMax))
        exact ⟨_, d', hd', hserves', hmax, rfl, rfl⟩
      · obtain ⟨d', hd', hserves', hmax⟩ := hqueued h [] (queues_nil rfl rfl)
        exact ⟨[], d', hd', hserves', hmax, rfl, rfl⟩
  | flush ack =>
      cases hstep
      obtain ⟨d', hd', hserves', hmax⟩ := hqueued _ _ ((queues_nil rfl rfl).enqueue (.flush ack))
      exact ⟨_, d', hd', hserves', hmax, rfl, rfl⟩
  | work =>
      obtain ⟨d₁, d', hd₁, hd', rfl⟩ := exists_of_work hstep
      rw [hdisk] at hd₁
      cases hd₁
      refine ⟨[], d', rfl, ?_, rfl, rfl, rfl⟩
      rw [List.append_nil]
      exact hserves.work hd'
  | other a =>
      simp only [logStep] at hstep
      split at hstep
      · cases hstep
      next ha =>
        obtain ⟨more, hqueues, hplain⟩ := act_queuesPlain (Bool.eq_false_iff.mpr ha) hstep
        obtain ⟨d', hd', hserves', hmax⟩ := hqueued h' more hqueues
        refine ⟨more, d', hd', hserves', hmax, ?_, ?_⟩
        · exact List.filterMap_eq_nil_iff.mpr fun op hop => (hplain op hop).1
        · exact List.filterMap_eq_nil_iff.mpr fun op hop => (hplain op hop).2

/-- A run, seen from the disk it started on. -/
theorem run_serves {d₀ d : Disk} {h h' : Hub} {steps : List LogStep} {ops : List PersistOp}
    (hdisk : h.disk = some d) (hserves : d₀.Serves ops d)
    (hrun : Machine.run logStep h steps = some h') :
    ∃ more d', h'.disk = some d' ∧ d₀.Serves (ops ++ more) d' ∧ h'.eventLogMax = h.eventLogMax ∧
      more.filterMap PersistOp.event? =
        (journalled h.eventLogMax steps).map (fun e => (e.blob, h.eventLogMax)) ∧
      more.filterMap PersistOp.ack? = steps.filterMap LogStep.ack? := by
  induction steps generalizing h d ops with
  | nil =>
      cases hrun
      exact ⟨[], d, hdisk, by rwa [List.append_nil], rfl, rfl, rfl⟩
  | cons a steps ih =>
      obtain ⟨h₁, hstep, hrest⟩ := Machine.run_cons_eq_some.mp hrun
      obtain ⟨first, d₁, hd₁, hserves₁, hmax₁, hevents₁, hacks₁⟩ :=
        logStep_serves hdisk hserves hstep
      obtain ⟨more, d', hd', hserves', hmax', hevents', hacks'⟩ := ih hd₁ hserves₁ hrest
      rw [hmax₁] at hevents'
      refine ⟨first ++ more, d', hd', ?_, hmax'.trans hmax₁, ?_, ?_⟩
      · rwa [← List.append_assoc]
      · rw [List.filterMap_append, hevents₁, hevents', ← List.map_append, journalled, journalled,
          List.filterMap_cons]
        cases a.event? h.eventLogMax <;> rfl
      · rw [List.filterMap_append, hacks₁, hacks', List.filterMap_cons]
        cases a.ack? <;> rfl

/-- From startup on, through a flush that has been acknowledged: the log is the
initial one with the journalled events numbered on, at least those from before the
flush, and without the oldest ones if retention pruned them. -/
theorem logged_after_flush {st : Storage} {retry : RetryConfig} {eventLogMax now ack : Nat}
    {log : List (Nat × Event)} (hlog : st.events.toList = log.map Event.row)
    {before after : List LogStep} {h₁ h : Hub}
    (hbefore : Machine.run logStep (new (some st) retry eventLogMax now) before = some h₁)
    (hafter : Machine.run logStep (h₁.flush ack) after = some h)
    (hfresh : ack ∉ (before ++ after).filterMap LogStep.ack?) (hack : ack ∈ h.acks)
    (hroom : nextOffset log + (journalled eventLogMax (before ++ after)).length ≤ u64Bound) :
    ∃ d later, h.disk = some d ∧ later <+: journalled eventLogMax after ∧
      Storage.Logged eventLogMax log (journalled eventLogMax before ++ later) d.storage := by
  obtain ⟨ops₁, d₁, hd₁, hserves₁, hmax₁, hevents₁, hacks₁⟩ :=
    run_serves rfl (Disk.Serves.refl ⟨st, [], []⟩) hbefore
  have hflushed : (h₁.flush ack).disk = some { d₁ with queue := d₁.queue ++ [.flush ack] } := by
    rw [flush, enqueue, hd₁, Option.map_some, Disk.enqueue]
  obtain ⟨ops₂, d, hd, hserves, -, hevents₂, hacks₂⟩ :=
    run_serves hflushed (hserves₁.enqueue [.flush ack]) hafter
  have hmax : (h₁.flush ack).eventLogMax = eventLogMax := hmax₁
  rw [hmax] at hevents₂
  rw [List.nil_append, List.append_assoc, List.singleton_append] at hserves
  obtain ⟨later, rest, hsplit, hstorage⟩ := hserves.barrier rfl
    (by rwa [List.nil_append, List.filterMap_append, hacks₁, hacks₂, ← List.filterMap_append])
    (by simpa only [acks, hd, Option.map_some, Option.getD_some] using hack)
  -- the events among the performed writes are a first part of those journalled
  rw [hsplit, List.filterMap_append] at hevents₂
  obtain ⟨served, unserved, hjournalled, hserved, -⟩ := List.map_eq_append_iff.mp hevents₂.symm
  refine ⟨d, served, hd, ⟨unserved, hjournalled.symm⟩, ?_⟩
  have hinit : Storage.Logged eventLogMax log [] st := ⟨0, by simp [number, hlog], Or.inl rfl⟩
  rw [hstorage, ← List.nil_append (_ ++ served)]
  refine hinit.foldl ?_ ?_ ?_
  · intro hne
    obtain ⟨e, he⟩ := List.exists_mem_of_ne_nil _ hne
    have hmem : e ∈ journalled eventLogMax (before ++ after) := by
      rw [journalled_append, hjournalled, ← List.append_assoc]
      exact List.mem_append_left _ he
    obtain ⟨a, -, ha⟩ := List.mem_filterMap.mp hmem
    exact LogStep.pos_of_event? ha
  · rw [List.filterMap_append, hevents₁, List.map_append, hserved]
    rfl
  · rw [journalled_append, hjournalled] at hroom
    simp only [List.length_append, List.length_nil] at hroom ⊢
    omega

/-- What replays see after an acknowledged flush, from startup on and whatever
else goes on. The log in the store is the initial one followed by the journalled
events at consecutive offsets, at least all from before the flush, without its
oldest rows if retention has pruned them. A replay appends to the session's
channel the rows from its offset on that match its filter, each once, in order of
offsets. Two replays that meet at an offset send what one replay sends. -/
theorem replay_after_flush (st : Storage) (retry : RetryConfig) (eventLogMax now ack : Nat)
    (log : List (Nat × Event)) (hlog : st.events.toList = log.map Event.row)
    {before after : List LogStep} {h₁ h : Hub}
    (hbefore : Machine.run logStep (new (some st) retry eventLogMax now) before = some h₁)
    (hafter : Machine.run logStep (h₁.flush ack) after = some h)
    (hfresh : ack ∉ (before ++ after).filterMap LogStep.ack?) (hack : ack ∈ h.acks)
    (hfits : ∀ e ∈ log.map Prod.snd ++ journalled eventLogMax (before ++ after), e.Fits)
    (hroom : nextOffset log + (journalled eventLogMax (before ++ after)).length ≤ u64Bound) :
    ∃ d rows later pruned, h.disk = some d ∧ d.storage.events.toList = rows.map Event.row ∧
      rows.Pairwise (fun a b => a.1 < b.1) ∧
      later <+: journalled eventLogMax after ∧
      rows = (log ++ number (nextOffset log) (journalled eventLogMax before ++ later)).drop pruned ∧
      (pruned = 0 ∨ rows.length = eventLogMax) ∧
      (∀ id s, h.sessions.byId.lookup id = some s → ∀ start filter,
        h.replay id start filter =
          ((selected rows start filter).length,
            h.setSession id
              { s with tx := s.tx.map (· ++ (selected rows start filter).map Event.packet) })) ∧
      ∀ start k filter, start ≤ k + 1 →
        ((selected rows start filter).filter fun r => r.1 ≤ k) ++ selected rows (k + 1) filter =
          selected rows start filter := by
  obtain ⟨d, later, hd, hlater, pruned, hrows, hpruned⟩ :=
    logged_after_flush hlog hbefore hafter hfresh hack hroom
  -- the order is that of the table, whatever was appended
  have hsorted : ((log ++ number (nextOffset log) (journalled eventLogMax before ++ later)).drop
      pruned).Pairwise fun a b => a.1 < b.1 := by
    have htable := Table.pairwise_toList d.storage.events
    rw [hrows, List.pairwise_map] at htable
    exact htable
  refine ⟨d, _, later, pruned, hd, hrows, hsorted, hlater, rfl, hpruned, ?_, ?_⟩
  · intro id s hs start filter
    refine replay_eq hd hrows (fun r hr => hfits r.2 ?_) hs start filter
    have hmem : r.2 ∈ (log ++ number (nextOffset log)
        (journalled eventLogMax before ++ later)).map Prod.snd :=
      List.mem_map_of_mem (List.mem_of_mem_drop hr)
    rw [List.map_append, map_snd_number] at hmem
    rw [journalled_append]
    have hprefix : journalled eventLogMax before ++ later <+:
        journalled eventLogMax before ++ journalled eventLogMax after :=
      (List.prefix_append_right_inj _).mpr hlater
    exact List.mem_append.mpr ((List.mem_append.mp hmem).imp_right fun h => hprefix.subset h)
  · exact fun start k filter hk => selected_split _ hsorted hk filter

def sampleBefore : List LogStep :=
  [.other (.connect "c" true 60 0), .publish ⟨0, "a", .atMostOnce, [1]⟩,
    .publish ⟨0, "$x", .atMostOnce, [1]⟩]

def sampleAfter : List LogStep :=
  [.work, .publish ⟨0, "a", .atMostOnce, [2]⟩, .work, .work, .work]

theorem replay_after_flush_sample :
    (journalled 10 sampleBefore).length = 1 ∧
    ∃ h₁ h rows,
      Machine.run logStep (new (some Storage.empty) ⟨5, 5, 60⟩ 10 0) sampleBefore = some h₁ ∧
      Machine.run logStep (h₁.flush 7) sampleAfter = some h ∧
      (h.replay 1 0 ⟨"#", by decide⟩).1 = 2 ∧
      ∀ id s, h.sessions.byId.lookup id = some s → ∀ start filter,
        (h.replay id start filter).1 = (selected rows start filter).length := by
  obtain ⟨d, rows, later, pruned, -, -, -, -, -, -, hreplay, -⟩ := replay_after_flush Storage.empty
    ⟨5, 5, 60⟩ 10 0 7 [] rfl (rfl : Machine.run logStep _ sampleBefore = some _)
    (rfl : Machine.run logStep _ sampleAfter = some _) (by decide) (by decide) (by decide)
    (by decide)
  refine ⟨by decide, _, _, rows, rfl, rfl, by decide, fun id s hs start filter => ?_⟩
  rw [hreplay id s hs start filter]

/-- Offsets wrap: past the largest one the second of two publishes overwrites the
first, with room for more rows. And two replays repeat events when the second
starts below the first. -/
theorem replay_misses_overwritten :
    let e (k : UInt8) : Event := ⟨0, "a", .atMostOnce, [k]⟩
    let st := { Storage.empty with events := Storage.empty.events.insert (2 ^ 64 - 1) (e 0).blob }
    (∃ h d, Machine.run logStep (new (some st) ⟨5, 5, 60⟩ 10 0)
        [.publish (e 1), .publish (e 2), .flush 7, .work, .work, .work] = some h ∧
      h.disk = some d ∧ 7 ∈ h.acks ∧ d.storage.events.toList.length = 2 ∧
      ∀ row ∈ d.storage.events.toList, row.2 ≠ (e 1).blob) ∧
    ((selected [(3, e 0), (4, e 1)] 5 ⟨"#", by decide⟩).filter fun r => r.1 ≤ 2) ++
        selected [(3, e 0), (4, e 1)] (2 + 1) ⟨"#", by decide⟩ ≠
      selected [(3, e 0), (4, e 1)] 5 ⟨"#", by decide⟩ := by
  refine ⟨⟨_, _, rfl, rfl, ?_, ?_, ?_⟩, ?_⟩ <;> decide

end Hub

end Relay
