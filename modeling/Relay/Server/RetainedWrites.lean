import Relay.Server.Queues

/-! # Retained messages in memory and on disk

A retained publish changes the store in memory under its lock and queues the row
once the lock is released, so the two steps of different publishers interleave.
Rows of one topic that are queued in the order of the changes in memory leave the
message that memory holds; the other order leaves an older one, or brings a
cleared one back.
-/

namespace Relay

/-! ## The row of a topic -/

namespace Message

def row (m : Message) : Bytes := m.qos.toU8 :: m.payload

/-- What a retained message makes of the entry of a topic. -/
def replaces {A : Type} (topic : String) (entry : Message → A) (m : Message) (before : Option A) :
    Option A :=
  if m.topic = topic then if m.payload = [] then none else some (entry m) else before

/-- A message as the retained store keeps it under its topic. -/
structure KeptUnder (topic : String) (m : Message) : Prop where
  topic_eq : m.topic = topic
  retain : m.retain = true
  payload_ne_nil : m.payload ≠ []

end Message

/-- A retained publish concerns its own topic. -/
theorem RetainedStore.lookup_apply (store : RetainedStore) (m : Message) (topic : String) :
    (store.apply m).byTopic.lookup topic =
      m.replaces topic id (store.byTopic.lookup topic) := by
  unfold RetainedStore.apply Message.replaces
  split
  · rw [AssocMap.lookup_erase]
    by_cases htopic : m.topic = topic
    · simp [htopic]
    · simp [htopic, Ne.symm htopic]
  · rw [AssocMap.lookup_insert]
    by_cases htopic : m.topic = topic
    · simp [htopic]
    · simp [htopic, Ne.symm htopic]

def PersistOp.retained? : PersistOp → Option Message
  | .putRetained topic payload qos => some ⟨topic, payload, qos, true⟩
  | _ => none

theorem PersistOp.retain_of_retained? {op : PersistOp} {m : Message} (hop : op.retained? = some m) :
    m.retain = true := by
  cases op with
  | putRetained topic payload qos =>
      cases hop
      rfl
  | _ => cases hop

namespace Storage

/-- On disk as in memory, a retained message replaces the entry of its topic. -/
theorem retained_applyPersistOp (st : Storage) (op : PersistOp) (topic : String) :
    (st.applyPersistOp op).retained[topic]? =
      match op.retained? with
      | some m => m.replaces topic Message.row st.retained[topic]?
      | none => st.retained[topic]? := by
  cases op with
  | putRetained t payload qos =>
      simp only [applyPersistOp, putRetained, PersistOp.retained?, Message.replaces]
      split
      · rw [Std.TreeMap.getElem?_erase]
        by_cases htopic : t = topic
        · simp [htopic]
        · simp [htopic]
      · rw [Std.TreeMap.getElem?_insert]
        by_cases htopic : t = topic
        · simp [htopic, Message.row]
        · simp [htopic]
  | putInflight clientId blob =>
      simp only [applyPersistOp, putInflight, PersistOp.retained?]
      split <;> rfl
  | _ => rfl

/-- The row of a topic is that of the message kept for it, if one is kept. -/
structure RowOf (topic : String) (kept : Option Message) (row : Option Bytes) : Prop where
  keptUnder : ∀ m ∈ kept, m.KeptUnder topic
  row_eq : row = kept.map Message.row

/-- A message that replaces both the kept message and the row. -/
theorem RowOf.replaces {topic : String} {kept : Option Message} {row : Option Bytes}
    (hrow : RowOf topic kept row) {m : Message} (hretain : m.retain = true) :
    RowOf topic (m.replaces topic id kept) (m.replaces topic Message.row row) := by
  unfold Message.replaces
  split
  next htopic =>
    split
    next => exact ⟨by simp, rfl⟩
    next hpayload =>
      refine ⟨fun m' hm' => ?_, rfl⟩
      cases hm'
      exact ⟨htopic, hretain, hpayload⟩
  next => exact hrow

/-- Loading yields the message of a topic from its row, and nothing without one. -/
theorem filter_loadRetained {st : Storage} {topic : String} {kept : Option Message}
    (hrow : RowOf topic kept st.retained[topic]?) :
    st.loadRetained.filter (fun m => m.topic = topic) = kept.toList := by
  rw [loadRetained, AssocList.filter_filterMap_key Prod.fst, Table.filter_key_toList, hrow.row_eq]
  · cases kept with
    | none => rfl
    | some m =>
        obtain ⟨htopic, hretain, -⟩ := hrow.keptUnder m rfl
        cases m
        cases htopic
        cases hretain
        simp [Message.row]
  · rintro ⟨t, bytes⟩ m hm
    cases bytes with
    | nil => cases hm
    | cons qos payload =>
        cases hm
        rfl

/-- Every row is one that a retained message was stored as. -/
def RetainedRows (st : Storage) : Prop := ∀ topic, ∃ kept, RowOf topic kept st.retained[topic]?

theorem retainedRows_empty : RetainedRows empty := fun _ => ⟨none, by simp, rfl⟩

theorem RetainedRows.applyPersistOp {st : Storage} (hrows : st.RetainedRows) (op : PersistOp) :
    (st.applyPersistOp op).RetainedRows := by
  intro topic
  obtain ⟨kept, hrow⟩ := hrows topic
  cases hop : op.retained? with
  | none =>
      refine ⟨kept, ?_⟩
      rw [retained_applyPersistOp, hop]
      exact hrow
  | some m =>
      refine ⟨m.replaces topic id kept, ?_⟩
      rw [retained_applyPersistOp, hop]
      exact hrow.replaces (PersistOp.retain_of_retained? hop)

/-- Whatever is written to a new store, its retained rows can be loaded. -/
theorem retainedRows_foldl (ops : List PersistOp) :
    (ops.foldl Storage.applyPersistOp empty).RetainedRows :=
  List.foldlRecOn ops _ retainedRows_empty fun _ hrows op _ => hrows.applyPersistOp op

end Storage

open Storage

/-! ## The retained store after startup -/

/-- Of messages applied in order only those of a topic count for it. -/
theorem RetainedStore.lookup_foldl_apply (topic : String) (messages : List Message)
    (store : RetainedStore) :
    (messages.foldl RetainedStore.apply store).byTopic.lookup topic =
      (messages.filter fun m => m.topic = topic).foldl (fun before m => m.replaces topic id before)
        (store.byTopic.lookup topic) := by
  induction messages generalizing store with
  | nil => rfl
  | cons m rest ih =>
      rw [List.foldl_cons, ih, lookup_apply]
      by_cases htopic : m.topic = topic
      · simp [htopic]
      · simp [htopic, Message.replaces]

/-- Applying what was loaded gives a topic the message that its row is of. -/
theorem RetainedStore.lookup_reload {st : Storage} {topic : String} {kept : Option Message}
    (hrow : RowOf topic kept st.retained[topic]?) :
    (st.loadRetained.foldl RetainedStore.apply RetainedStore.new).byTopic.lookup topic = kept := by
  rw [lookup_foldl_apply, filter_loadRetained hrow]
  cases kept with
  | none => rfl
  | some m =>
      obtain ⟨htopic, -, hpayload⟩ := hrow.keptUnder m rfl
      simp [Message.replaces, htopic, hpayload]

theorem Hub.rowOf_new {st : Storage} (hrows : st.RetainedRows) (retry : RetryConfig)
    (eventLogMax now : Nat) (topic : String) :
    RowOf topic ((Hub.new (some st) retry eventLogMax now).retained.byTopic.lookup topic)
      st.retained[topic]? := by
  obtain ⟨kept, hrow⟩ := hrows topic
  have hlookup : (Hub.new (some st) retry eventLogMax now).retained.byTopic.lookup topic =
      kept := RetainedStore.lookup_reload hrow
  rw [hlookup]
  exact hrow

/-! ## Interleaved publishes -/

/-- A retained message that is in memory and whose row its publisher has still to
queue. -/
structure Unwritten where
  task : Nat
  message : Message

/-- The hub with the messages applied and not yet queued, oldest first. -/
structure RetainedWrites where
  hub : Hub
  pending : List Unwritten

/-- The two steps of a retained publish, and any other section. -/
inductive RetainStep where
  | apply (task : Nat) (topic : String) (payload : Bytes) (qos : QoS)
  | enqueue (task : Nat)
  | other (a : Section)

/-- The sections a retained publish is made of. -/
def Section.retains : Section → Bool
  | .retain _ => true
  | .enqueue op => op.retained?.isSome
  | _ => false

namespace RetainedWrites

def step (st : RetainedWrites) : RetainStep → Option RetainedWrites
  | .apply task topic payload qos =>
      -- a publisher is at one publish at a time
      if st.pending.any fun p => p.task = task then none
      else
        (st.hub.act (.retain ⟨topic, payload, qos, true⟩)).map fun h =>
          ⟨h, st.pending ++ [⟨task, ⟨topic, payload, qos, true⟩⟩]⟩
  | .enqueue task =>
      (st.pending.find? fun p => p.task = task).map fun p =>
        ⟨st.hub.enqueue (.putRetained p.message.topic p.message.payload p.message.qos),
          st.pending.eraseP fun p => p.task = task⟩
  | .other a => if a.retains then none else (st.hub.act a).map fun h => { st with hub := h }

/-- The two steps together are what a publish does with its retain flag set. -/
theorem run_retain (h : Hub) (task : Nat) (topic : String) (payload : Bytes) (qos : QoS) :
    Machine.run step ⟨h, []⟩ [.apply task topic payload qos, .enqueue task] =
      some ⟨h.retain topic payload qos, []⟩ := by
  simp [Machine.run, step, Hub.act, Hub.retain]

def AtRest (st : RetainedWrites) : Prop := st.pending = [] ∧ ∀ d ∈ st.hub.disk, d.queue = []

/-- A row is queued only when no older message of the same topic is pending. -/
def InOrder (st : RetainedWrites) : RetainStep → Prop
  | .enqueue task => ∀ p ∈ st.pending.find? (fun p => p.task = task),
      ∀ q ∈ st.pending.takeWhile (fun p => p.task ≠ task), q.message.topic ≠ p.message.topic
  | _ => True

instance (st : RetainedWrites) : (a : RetainStep) → Decidable (st.InOrder a)
  | .enqueue task => inferInstanceAs (Decidable
      (∀ p ∈ st.pending.find? (fun p => p.task = task),
        ∀ q ∈ st.pending.takeWhile (fun p => p.task ≠ task), q.message.topic ≠ p.message.topic))
  | .apply _ _ _ _ => isTrue trivial
  | .other _ => isTrue trivial

end RetainedWrites

namespace Hub

/-- Loading the store yields for every topic the message that memory holds for
it, and nothing for a topic without one. -/
def RetainedAgree (h : Hub) : Prop :=
  ∀ d ∈ h.disk, ∀ topic, d.storage.loadRetained.filter (fun m => m.topic = topic) =
    (h.retained.byTopic.lookup topic).toList

/-- The retained row a topic has once the worker has drained the queue. -/
def retainedRow (h : Hub) (topic : String) : Option Bytes :=
  h.disk.bind fun d => d.settled.retained[topic]?

theorem retainedRow_enqueue {h : Hub} (hdisk : h.disk.isSome) (topic : String) {op : PersistOp}
    {m : Message} (hop : op.retained? = some m) :
    (h.enqueue op).retainedRow topic = m.replaces topic Message.row (h.retainedRow topic) := by
  obtain ⟨d, hd⟩ := Option.isSome_iff_exists.mp hdisk
  simp [retainedRow, enqueue, hd, retained_applyPersistOp, hop]

theorem retainedRow_work {h h' : Hub} (hwork : h.work = some h') (topic : String) :
    h'.retainedRow topic = h.retainedRow topic := by
  obtain ⟨d, d', hd, hd', rfl⟩ := exists_of_work hwork
  simp [retainedRow, hd, Disk.settled_work hd']

/-- Writes for other tables leave the retained rows alone. -/
theorem QueuesAll.retainedRow {h h' : Hub}
    (hqueues : QueuesAll (fun op => op.retained? = none) h h') (topic : String) :
    h'.retainedRow topic = h.retainedRow topic := by
  obtain ⟨ops, hops, hall⟩ := hqueues
  have hfold : ∀ (ops : List PersistOp) (st : Storage), (∀ op ∈ ops, op.retained? = none) →
      (ops.foldl Storage.applyPersistOp st).retained[topic]? = st.retained[topic]? := by
    intro ops
    induction ops with
    | nil => exact fun _ _ => rfl
    | cons op rest ih =>
        intro st hall
        rw [List.forall_mem_cons] at hall
        rw [List.foldl_cons, ih _ hall.2, retained_applyPersistOp, hall.1]
  unfold Hub.retainedRow
  rw [hops.disk]
  cases h.disk with
  | none => rfl
  | some d => simp [Disk.settled, hfold ops _ hall]

theorem retained_discard (h : Hub) (id : ClientId) : (h.discard id).retained = h.retained := by
  unfold discard
  cases h.sessions.byId.lookup id <;> rfl

theorem retained_detach (h : Hub) (id : ClientId) (generation : Nat) :
    (h.detach id generation).retained = h.retained := by
  rcases h.detach_cases id generation with ⟨heq, -⟩ | ⟨s, -, -, ⟨-, heq⟩ | ⟨-, timers, heq⟩⟩
  · rw [heq]
  · rw [heq]
    exact retained_discard _ id
  · rw [heq]
    rfl

theorem retained_persistMeta (h : Hub) (clientId : String) (expirySecs : Nat) :
    (h.persistMeta clientId expirySecs).retained = h.retained := by
  unfold persistMeta
  split <;> rfl

theorem retained_connect {h h' : Hub} {clientId : String} {cleanStart : Bool}
    {expirySecs now : Nat} {c : Connected}
    (hconnect : h.connect clientId cleanStart expirySecs now = some (c, h')) :
    h'.retained = h.retained := by
  rcases connect_cases hconnect with
    ⟨-, -, rfl⟩ | ⟨id, -, -, -, rfl⟩ | ⟨id, s, -, -, -, -, rfl⟩
  · exact retained_persistMeta _ clientId expirySecs
  · exact retained_persistMeta _ clientId expirySecs
  · exact retained_persistMeta _ clientId expirySecs

/-- The sections of other operations do not touch the retained store. -/
theorem retained_act {h h' : Hub} {a : Section} (ha : a.retains = false)
    (hact : h.act a = some h') : h'.retained = h.retained := by
  cases a with
  | connect clientId cleanStart expirySecs now =>
      obtain ⟨⟨c, h''⟩, hconnect, rfl⟩ := Option.map_eq_some_iff.mp hact
      exact retained_connect hconnect
  | detach id generation =>
      cases hact
      exact retained_detach h id generation
  | expire id generation =>
      cases hact
      rcases h.expire_cases id generation with ⟨heq, -⟩ | ⟨s, -, -, heq⟩
      · rw [heq]
      · rw [heq]
        exact retained_discard _ id
  | subscribe id filter qos => cases hact; rfl
  | subscribeShared group id filter qos => cases hact; rfl
  | unroute id raw => cases hact; rfl
  | route topic => cases hact; rfl
  | retain message => cases ha
  | deliver targets topic payload msgQos now =>
      obtain ⟨f, hf, rfl⟩ := Option.map_eq_some_iff.mp hact
      rw [only_sessions_deliverAll hf]
  | replayRetained id messages granted now =>
      obtain ⟨⟨snapshot, h''⟩, hreplay, rfl⟩ := Option.map_eq_some_iff.mp hact
      unfold replayRetained at hreplay
      split at hreplay
      · cases hreplay
        rfl
      · obtain ⟨s', -, heq⟩ := Option.bind_eq_some_iff.mp hreplay
        cases heq
        rfl
  | tick now => cases hact; rfl
  | acknowledge id ack =>
      cases hact
      unfold acknowledge
      split <;> rfl
  | qos2Seen id pid =>
      cases hact
      unfold inboundQos2Seen
      split <;> rfl
  | qos2Release id pid =>
      cases hact
      unfold inboundQos2Release
      split <;> rfl
  | send id packets =>
      cases hact
      unfold sendAll
      split <;> rfl
  | enqueue op => cases hact; rfl
  | work =>
      obtain ⟨d, d', -, -, rfl⟩ := exists_of_work hact
      rfl

end Hub

namespace RetainedWrites

/-- The row a topic ends up with if the pending messages are queued in order. -/
def eventualRow (st : RetainedWrites) (topic : String) : Option Bytes :=
  st.pending.foldl (fun row p => p.message.replaces topic Message.row row) (st.hub.retainedRow topic)

structure Tracked (st : RetainedWrites) : Prop where
  disk : st.hub.disk.isSome
  retain : ∀ p ∈ st.pending, p.message.retain = true
  rows : ∀ topic, RowOf topic (st.hub.retained.byTopic.lookup topic) (st.eventualRow topic)

/-- A message that is applied is pending until its row is queued. -/
theorem Tracked.apply {st : RetainedWrites} (htracked : st.Tracked) (task : Nat) {m : Message}
    (hretain : m.retain = true) :
    Tracked ⟨{ st.hub with retained := st.hub.retained.apply m }, st.pending ++ [⟨task, m⟩]⟩ := by
  refine ⟨htracked.disk, ?_, fun topic => ?_⟩
  · intro p hp
    rcases List.mem_append.mp hp with hold | hnew
    · exact htracked.retain p hold
    · rw [List.mem_singleton.mp hnew]
      exact hretain
  · have hrow := (htracked.rows topic).replaces hretain
    rw [← RetainedStore.lookup_apply] at hrow
    rw [eventualRow, List.foldl_append]
    exact hrow

/-- A message changes places with messages of other topics. -/
theorem foldl_replaces_comm (topic : String) {p : Unwritten} {before : List Unwritten}
    (hothers : ∀ q ∈ before, q.message.topic ≠ p.message.topic) (row : Option Bytes) :
    before.foldl (fun row q => q.message.replaces topic Message.row row)
        (p.message.replaces topic Message.row row) =
      p.message.replaces topic Message.row
        (before.foldl (fun row q => q.message.replaces topic Message.row row) row) := by
  induction before generalizing row with
  | nil => rfl
  | cons q rest ih =>
      rw [List.forall_mem_cons] at hothers
      rw [List.foldl_cons, List.foldl_cons, ← ih hothers.2]
      congr 1
      unfold Message.replaces
      by_cases hq : q.message.topic = topic
      · have hp : p.message.topic ≠ topic := fun hp => hothers.1 (hq.trans hp.symm)
        simp [hp]
      · simp [hq]

/-- Queued in order, a row leaves the eventual rows as they were. -/
theorem Tracked.enqueue {st : RetainedWrites} (htracked : st.Tracked) {task : Nat} {p : Unwritten}
    (hp : st.pending.find? (fun p => p.task = task) = some p)
    (horder : st.InOrder (.enqueue task)) :
    Tracked ⟨st.hub.enqueue (.putRetained p.message.topic p.message.payload p.message.qos),
      st.pending.eraseP fun p => p.task = task⟩ := by
  obtain ⟨before, after, hsplit, hbefore, herase⟩ := AssocList.exists_split_of_find? hp
  have holdest : ∀ q ∈ before, q.message.topic ≠ p.message.topic :=
    fun q hq => horder p hp q (hbefore ▸ hq)
  have hop : PersistOp.retained? (.putRetained p.message.topic p.message.payload p.message.qos) =
      some p.message := by
    have hretain := htracked.retain p (hsplit ▸ List.mem_append_right _ List.mem_cons_self)
    rw [PersistOp.retained?, ← hretain]
  refine ⟨?_, fun q hq => htracked.retain q (List.mem_of_mem_eraseP hq), fun topic => ?_⟩
  · simpa [Hub.enqueue] using htracked.disk
  · have hrow := htracked.rows topic
    rw [eventualRow, hsplit, List.foldl_append, List.foldl_cons,
      ← foldl_replaces_comm topic holdest, ← Hub.retainedRow_enqueue htracked.disk topic hop,
      ← List.foldl_append, ← herase] at hrow
    exact hrow

theorem Tracked.other {st : RetainedWrites} (htracked : st.Tracked) {a : Section} {h' : Hub}
    (ha : a.retains = false) (hact : st.hub.act a = some h') : Tracked { st with hub := h' } := by
  have hkept : h'.disk.isSome ∧ ∀ topic, h'.retainedRow topic = st.hub.retainedRow topic := by
    by_cases hwork : a = .work
    · subst hwork
      refine ⟨?_, Hub.retainedRow_work hact⟩
      obtain ⟨d, d', -, -, rfl⟩ := Hub.exists_of_work hact
      rfl
    · have hqueues : Hub.QueuesAll (fun op => op.retained? = none) st.hub h' := by
        refine Hub.queuesAll_act (fun _ _ _ => rfl) (fun _ => rfl) hwork ?_ hact
        rintro op rfl
        exact Option.not_isSome_iff_eq_none.mp (Bool.eq_false_iff.mp ha)
      refine ⟨?_, hqueues.retainedRow⟩
      obtain ⟨ops, hops, -⟩ := hqueues
      simpa [hops.disk] using htracked.disk
  refine ⟨hkept.1, htracked.retain, fun topic => ?_⟩
  have hrow := htracked.rows topic
  rw [eventualRow, ← hkept.2, ← Hub.retained_act ha hact] at hrow
  exact hrow

theorem Tracked.step {st st' : RetainedWrites} {a : RetainStep} (htracked : st.Tracked)
    (horder : st.InOrder a) (hstep : st.step a = some st') : st'.Tracked := by
  cases a with
  | apply task topic payload qos =>
      simp only [RetainedWrites.step] at hstep
      split at hstep
      · cases hstep
      · cases hstep
        exact htracked.apply task rfl
  | enqueue task =>
      obtain ⟨p, hp, rfl⟩ := Option.map_eq_some_iff.mp hstep
      exact htracked.enqueue hp horder
  | other a =>
      simp only [RetainedWrites.step] at hstep
      split at hstep
      · cases hstep
      next ha =>
        obtain ⟨h', hact, rfl⟩ := Option.map_eq_some_iff.mp hstep
        exact htracked.other (Bool.eq_false_iff.mpr ha) hact

/-- At rest the store holds the rows that memory is in agreement with. -/
theorem Tracked.agree {st : RetainedWrites} (htracked : st.Tracked) (hrest : st.AtRest) :
    st.hub.RetainedAgree := by
  intro d hd topic
  have hrow := htracked.rows topic
  have hqueue := hrest.2 d hd
  rw [Option.mem_def] at hd
  simp only [eventualRow, hrest.1, List.foldl_nil, Hub.retainedRow, hd, Option.bind_some,
    Disk.settled, hqueue] at hrow
  exact filter_loadRetained hrow

/-- From startup on any store the broker can have left, a run in which the rows of
every topic are queued in the order of the changes in memory has memory and store
in agreement whenever it is at rest, however the publishes interleave. -/
theorem retainedAgree_of_inOrder (writes : List PersistOp) (retry : RetryConfig)
    (eventLogMax now : Nat) {steps : List RetainStep}
    (horder : Machine.Meets step InOrder
      ⟨Hub.new (some (writes.foldl Storage.applyPersistOp Storage.empty)) retry eventLogMax now, []⟩
      steps) :
    Machine.Always step (fun st => st.AtRest → st.hub.RetainedAgree)
      ⟨Hub.new (some (writes.foldl Storage.applyPersistOp Storage.empty)) retry eventLogMax now, []⟩
      steps := by
  refine Machine.always_of_meets Tracked InOrder
    (fun st a st' htracked hok hstep => htracked.step hok hstep)
    (fun st htracked hrest => htracked.agree hrest) ?_ horder
  exact ⟨rfl, by simp, Hub.rowOf_new (retainedRows_foldl writes) retry eventLogMax now⟩

def started : RetainedWrites := ⟨Hub.new (some Storage.empty) ⟨5, 5, 60⟩ 0 0, []⟩

/-- One publisher sets a topic and another one clears it, in the same order in
memory and in the queue. -/
theorem retainedAgree_of_inOrder_cleared :
    let steps : List RetainStep := [.apply 0 "t" [7] .atLeastOnce, .apply 1 "t" [] .atMostOnce,
      .enqueue 0, .enqueue 1, .other .work, .other .work]
    Machine.Always step (fun st => st.AtRest → st.hub.RetainedAgree) started steps ∧
      ∃ st, Machine.run step started steps = some st ∧ st.AtRest := by
  refine ⟨retainedAgree_of_inOrder [] _ _ _ ?_, _, rfl, rfl, ?_⟩
  · decide
  · rintro d ⟨⟩
    rfl

/-- The same publishes, the second of which queues its row first: the message is
cleared in memory and back after a restart. -/
theorem retainedAgree_lost_by_reordering :
    ∃ st, Machine.run step started [.apply 0 "t" [7] .atLeastOnce, .apply 1 "t" [] .atMostOnce,
        .enqueue 1, .enqueue 0, .other .work, .other .work] = some st ∧
      st.AtRest ∧ ¬ st.hub.RetainedAgree := by
  refine ⟨_, rfl, ⟨rfl, ?_⟩, ?_⟩
  · rintro d ⟨⟩
    rfl
  · intro hagree
    exact absurd (hagree _ rfl "t") (by decide)

end RetainedWrites

end Relay
