import Relay.Server.EventLog
import Relay.Server.RetainedWrites
import Relay.Server.Snapshots
import Relay.Server.Startup
import Relay.Server.System
import Relay.Server.Touches

/-! # The contents that the broker holds

A message is copied between five forms: the packets on the channels, the in-flight
queues, the retained store, and the blobs and rows of all three and of the event log.
A property of topic and payload that the length fields can hold passes from each form
to the next, so that a section of the hub keeps it everywhere as long as what it is
given has it.
-/

namespace Relay

def PublishProperties.atOffset (properties : PublishProperties) (offset : Nat) :
    PublishProperties :=
  { properties with
    userProperties := properties.userProperties ++ [("x-replay-offset", toString offset)] }

section Forms

variable (P : String → Bytes → Prop)

structure Publish.Copies (p : Publish) : Prop where
  content : P p.topic p.payload
  properties : p.properties = .default ∨ ∃ offset, p.properties = .atOffset .default offset

/-- Every PUBLISH among the packets has such contents. -/
def Copied (packets : List Packet) : Prop := ∀ p, Packet.publish p ∈ packets → p.Copies P

/-- Every message of an in-flight queue has such contents. -/
def Awaiting (queue : List InflightEntry) : Prop :=
  ∀ e ∈ queue, ∀ p ∈ e.state.undelivered, P p.topic p.payload

/-- The queue that a blob is read as has such contents. -/
def BlobCarries (blob : Bytes) : Prop :=
  ∀ now cfg nextId queue, decodeInflight blob now cfg = some (nextId, queue) → Awaiting P queue

/-- The event that a blob is read as has such contents. -/
def EventCarries (blob : Bytes) : Prop :=
  ∀ topic payload qos, decodeEvent blob = some (topic, payload, qos) → P topic payload

/-- The session holds such contents only, in a queue that can be written. -/
structure Session.Carries (s : Session) : Prop where
  writable : s.Writable
  queue : Awaiting P s.inflight
  channel : ∀ packets ∈ s.tx, Copied P packets

def RetainedStore.Carries (store : RetainedStore) : Prop :=
  ∀ topic m, store.byTopic.lookup topic = some m → P m.topic m.payload

def PersistOp.Carries : PersistOp → Prop
  | .putInflight _ blob => BlobCarries P blob
  | .putRetained topic payload _ => P topic payload
  | .appendEvent blob _ => EventCarries P blob
  | _ => True

structure Storage.Carries (st : Storage) : Prop where
  retained : ∀ (topic : String) (qos : UInt8) (payload : Bytes),
    st.retained[topic]? = some (qos :: payload) → P topic payload
  inflight : ∀ (client : String) (blob : Bytes),
    st.inflight[client]? = some blob → BlobCarries P blob
  events : ∀ row ∈ st.events.toList, EventCarries P row.2

structure Disk.Carries (d : Disk) : Prop where
  storage : d.storage.Carries P
  queue : ∀ op ∈ d.queue, op.Carries P

structure Hub.Carries (h : Hub) : Prop where
  consistent : h.Consistent
  sessions : h.Each (Session.Carries P)
  retained : h.retained.Carries P
  disk : ∀ d ∈ h.disk, d.Carries P

def Handling.Carries : Handling → Prop
  | .call (.deliver topic payload _ _ _) => P topic payload
  | .pass packets => Copied P packets
  | _ => True

/-- A section is given such contents only. -/
def Section.Carries : Section → Prop
  | .retain m => P m.topic m.payload
  | .deliver _ topic payload _ _ => P topic payload
  | .replayRetained _ messages _ _ => ∀ m ∈ messages, P m.topic m.payload
  | .send _ packets => Copied P packets
  | .enqueue op => op.Carries P
  | _ => True

end Forms

variable {P : String → Bytes → Prop}

/-! ## Sessions -/

/-- Packet lists are checked part by part. -/
theorem Copied.append {packets more : List Packet} (hpackets : Copied P packets)
    (hmore : Copied P more) : Copied P (packets ++ more) := by
  intro p hp
  rcases List.mem_append.mp hp with hold | hnew
  · exact hpackets p hold
  · exact hmore p hnew

theorem copied_channel {tx : Option (List Packet)} {more : List Packet}
    (htx : ∀ packets ∈ tx, Copied P packets) (hmore : Copied P more) :
    ∀ packets ∈ tx.map (· ++ more), Copied P packets := by
  intro packets hpackets
  obtain ⟨before, hbefore, rfl⟩ := Option.map_eq_some_iff.mp hpackets
  exact (htx before hbefore).append hmore

/-- A redelivery is a copy of the message in the queue. -/
theorem copies_redelivery {e : InflightEntry} (hqueued : e.Queued)
    (hcontent : ∀ p ∈ e.state.undelivered, P p.topic p.payload) {p : Publish}
    (hp : e.state.redelivery = .publish p) : p.Copies P := by
  have hshape := hqueued.1
  cases hstate : e.state with
  | qos1 q =>
      rw [hstate] at hp hshape hcontent
      cases hp
      exact ⟨hcontent q rfl, Or.inl hshape.properties⟩
  | qos2AwaitRec q =>
      rw [hstate] at hp hshape hcontent
      cases hp
      exact ⟨hcontent q rfl, Or.inl hshape.properties⟩
  | qos2AwaitComp pid =>
      rw [hstate] at hp
      cases hp

namespace Session

variable {s : Session}

theorem carries_new (clientId : String) (tx : Option (List Packet)) (expirySecs generation : Nat)
    (htx : ∀ packets ∈ tx, Copied P packets) :
    (Session.new clientId tx expirySecs generation).Carries P :=
  ⟨kept_writable.new _ _ _ _, fun _ he => (nomatch he), htx⟩

/-- Only counter, queue and channel matter. -/
theorem Carries.frame (hs : s.Carries P) {t : Session} (hid : t.nextId = s.nextId)
    (hqueue : t.inflight = s.inflight) (hchannel : ∀ packets ∈ t.tx, Copied P packets) :
    t.Carries P :=
  ⟨kept_writable.frame hs.writable hid hqueue, hqueue ▸ hs.queue, hchannel⟩

/-- Entries that are left out do not matter. -/
theorem Carries.filter (hs : s.Carries P) (keep : InflightEntry → Bool) :
    Carries P { s with inflight := s.inflight.filter keep } :=
  ⟨⟨hs.writable.lt, fun e he => hs.writable.queued e (List.mem_of_mem_filter he)⟩,
    fun e he => hs.queue e (List.mem_of_mem_filter he), hs.channel⟩

/-- What is sent again is what the queue has, or a PUBREL, which has no contents. -/
theorem Carries.copied_redeliveries (hs : s.Carries P) :
    Copied P (s.inflight.map fun e => e.state.redelivery) := by
  intro p hp
  obtain ⟨e, he, hpacket⟩ := List.mem_map.mp hp
  exact copies_redelivery (hs.writable.queued e he) (hs.queue e he) hpacket

/-- A delivery puts its own contents into queue and channel. -/
theorem Carries.deliver (hs : s.Carries P) {topic : String} {payload : Bytes}
    (hcontent : P topic payload) {qos : QoS} {retain : Bool} {now : Nat} {cfg : RetryConfig}
    {t : Session} (hdeliver : s.deliver topic payload qos retain now cfg = some t) :
    t.Carries P := by
  have hwritable := kept_writable.deliver hdeliver hs.writable
  rw [deliver_eq] at hdeliver
  split at hdeliver
  · cases hdeliver
  · cases hdeliver
    refine ⟨hwritable, fun e he p hp => ?_, copied_channel hs.channel fun p hp => ?_⟩
    · rcases List.mem_append.mp he with hold | hnew
      · exact hs.queue e hold p hp
      · cases qos with
        | atMostOnce => cases hnew
        | atLeastOnce =>
            rw [List.mem_singleton.mp hnew] at hp
            cases hp
            exact hcontent
        | exactlyOnce =>
            rw [List.mem_singleton.mp hnew] at hp
            cases hp
            exact hcontent
    · rw [List.mem_singleton] at hp
      cases hp
      exact ⟨hcontent, Or.inl rfl⟩

theorem Carries.retransmit (hs : s.Carries P) (now : Nat) (cfg : RetryConfig) :
    (s.retransmit now cfg).Carries P := by
  refine ⟨kept_writable.retransmit now cfg hs.writable, fun e he p hp => ?_,
    copied_channel hs.channel hs.copied_redeliveries⟩
  obtain ⟨old, hold, rfl⟩ := List.mem_map.mp he
  exact hs.queue old hold p hp

/-- The message that a PUBREC moves on is a message no longer. -/
theorem awaiting_awaitComp {pid : Nat} {queue queue' : List InflightEntry}
    (hawait : awaitComp pid queue = some queue') (hqueue : Awaiting P queue) :
    Awaiting P queue' := by
  induction queue generalizing queue' with
  | nil => cases hawait
  | cons e rest ih =>
      have hrest : Awaiting P rest := fun e' he' => hqueue e' (List.mem_cons_of_mem e he')
      have hskip : (awaitComp pid rest).map (e :: ·) = some queue' → Awaiting P queue' := by
        intro hmap
        obtain ⟨tail, htail, rfl⟩ := Option.map_eq_some_iff.mp hmap
        exact List.forall_mem_cons.mpr ⟨hqueue e List.mem_cons_self, ih htail hrest⟩
      unfold awaitComp at hawait
      split at hawait
      · split at hawait
        · cases hawait
          exact List.forall_mem_cons.mpr ⟨fun p hp => (nomatch hp), hrest⟩
        · exact hskip hawait
      · exact hskip hawait

theorem Carries.onPubrec (hs : s.Carries P) (pid : Nat) : (s.onPubrec pid).Carries P := by
  have hwritable : (s.onPubrec pid).Writable := kept_writable.ack (.pubrec pid) hs.writable
  have hanswer : ∀ packets ∈ s.tx.map (· ++ [pubrel pid]), Copied P packets :=
    copied_channel hs.channel fun p hp => nomatch List.mem_singleton.mp hp
  unfold Session.onPubrec at hwritable ⊢
  split
  next queue hqueue =>
    rw [hqueue] at hwritable
    exact ⟨hwritable, awaiting_awaitComp hqueue hs.queue, hanswer⟩
  next =>
    split
    · exact hs
    · exact hs.frame rfl rfl hanswer

theorem Carries.tickRetries (hs : s.Carries P) (now : Nat) (cfg : RetryConfig) :
    (s.tickRetries now cfg).1.Carries P := by
  have hwritable := kept_writable.tickRetries now cfg hs.writable
  rw [tickRetries_eq] at hwritable ⊢
  refine ⟨hwritable, fun e he p hp => ?_, copied_channel hs.channel fun p hp => ?_⟩
  · obtain ⟨old, hold, hticked⟩ := List.mem_filterMap.mp he
    unfold InflightEntry.ticked at hticked
    split_ifs at hticked
    · cases hticked
      exact hs.queue e hold p hp
    · cases hticked
      exact hs.queue old hold p hp
  · obtain ⟨old, hold, hticked⟩ := List.mem_filterMap.mp hp
    unfold InflightEntry.tickedPacket at hticked
    split_ifs at hticked
    exact copies_redelivery (hs.writable.queued old hold) (hs.queue old hold)
      (Option.some.inj hticked)

/-- Nothing that is done to a session makes contents up. -/
theorem Carries.handle (hs : s.Carries P) {cfg : RetryConfig} {hd : Handling}
    (hhd : hd.Carries P) {out : Session × List DeadMsg} (hhandle : s.handle cfg hd = some out) :
    out.1.Carries P := by
  cases hd with
  | pass packets =>
      cases hhandle
      rw [foldl_send]
      exact hs.frame rfl rfl (copied_channel hs.channel hhd)
  | drain =>
      cases hhandle
      exact hs.filter _
  | call op =>
      cases op with
      | attach =>
          cases hhandle
          exact hs.frame rfl rfl fun packets hpackets p hp => by cases hpackets; cases hp
      | detach =>
          cases hhandle
          exact hs.frame rfl rfl fun packets hpackets => nomatch hpackets
      | deliver topic payload qos retain now =>
          obtain ⟨t, ht, rfl⟩ := Option.map_eq_some_iff.mp hhandle
          exact hs.deliver hhd ht
      | retransmit now =>
          cases hhandle
          exact hs.retransmit now cfg
      | onPuback pid =>
          cases hhandle
          exact hs.filter _
      | onPubrec pid =>
          cases hhandle
          exact hs.onPubrec pid
      | onPubcomp pid =>
          cases hhandle
          exact hs.filter _
      | tickRetries now =>
          cases hhandle
          exact hs.tickRetries now cfg

theorem Carries.handleAll (hs : s.Carries P) {cfg : RetryConfig} {handlings : List Handling}
    (hall : ∀ hd ∈ handlings, hd.Carries P) {t : Session}
    (hrun : s.handleAll cfg handlings = some t) : t.Carries P := by
  induction handlings generalizing s with
  | nil =>
      cases hrun
      exact hs
  | cons hd rest ih =>
      rw [List.forall_mem_cons] at hall
      obtain ⟨s₁, hfirst, hrest⟩ := Machine.run_cons_eq_some.mp hrun
      obtain ⟨out, hhandle, rfl⟩ := Option.map_eq_some_iff.mp hfirst
      exact ih (hs.handle hall.1 hhandle) hall.2 hrest

/-- The dead messages of a retry and of a drain were messages of the queue. -/
theorem Carries.dead_tickRetries (hs : s.Carries P) {now : Nat} {cfg : RetryConfig} {msg : DeadMsg}
    (hmsg : msg ∈ (s.tickRetries now cfg).2.1) : P msg.publish.topic msg.publish.payload := by
  rw [tickRetries_eq] at hmsg
  obtain ⟨e, he, hdead⟩ := List.mem_filterMap.mp hmsg
  unfold InflightEntry.tickedDead at hdead
  split at hdead
  · cases hdead
  · obtain ⟨p, hp, hmade⟩ := Option.bind_eq_some_iff.mp hdead
    split at hmade
    · cases hmade
      exact hs.queue e he p hp
    · cases hmade

/-- Messages given up at the expiry are from the queue. -/
theorem Carries.dead_drain (hs : s.Carries P) {msg : DeadMsg} (hmsg : msg ∈ s.drainUndelivered.2) :
    P msg.publish.topic msg.publish.payload := by
  obtain ⟨e, he, hdead⟩ := List.mem_filterMap.mp hmsg
  obtain ⟨p, hp, hmade⟩ := Option.bind_eq_some_iff.mp hdead
  split at hmade
  · cases hmade
  · cases hmade
    exact hs.queue e he p hp

end Session

/-! ## Blobs -/

section Blobs

variable (hfits : ∀ topic payload, P topic payload → WireFits topic payload)

include hfits

theorem fits_of_awaiting {queue : List InflightEntry} (hqueue : Awaiting P queue) :
    ∀ e ∈ queue, e.state.Fits := by
  intro e he
  have hcontent := hqueue e he
  cases hstate : e.state with
  | qos1 p =>
      rw [hstate] at hcontent
      exact hfits _ _ (hcontent p rfl)
  | qos2AwaitRec p =>
      rw [hstate] at hcontent
      exact hfits _ _ (hcontent p rfl)
  | qos2AwaitComp pid => trivial

/-- No length is cut off, so the blob of a session is read as its queue. -/
theorem Session.Carries.blob {s : Session} (hs : s.Carries P) : BlobCarries P s.encodeInflight := by
  intro now cfg nextId queue hdecode
  rw [decodeInflight_encodeInflight hs.writable.lt hs.writable.queued
    (fits_of_awaiting hfits hs.queue)] at hdecode
  cases hdecode
  intro e he p hp
  obtain ⟨old, hold, rfl⟩ := List.mem_map.mp he
  exact hs.queue old hold p hp

/-- Contents that fit their length fields are read back from the log as they are. -/
theorem eventCarries_encode {topic : String} {payload : Bytes} (hcontent : P topic payload)
    (ts : Nat) (qos : QoS) : EventCarries P (encodeEvent ts topic qos payload) := by
  intro topic' payload' qos' hdecode
  rw [decodeEvent_encodeEvent ts (hfits topic payload hcontent).1] at hdecode
  cases hdecode
  exact hcontent

end Blobs

/-- What a replay sends for an event is a copy of it. -/
theorem copies_replayPacket {filter : TopicFilter} {row : Nat × Bytes}
    (hrow : EventCarries P row.2) {p : Publish}
    (hp : Hub.replayPacket filter row = some (.publish p)) : p.Copies P := by
  obtain ⟨⟨topic, payload, qos⟩, hdecode, hmade⟩ := Option.bind_eq_some_iff.mp hp
  dsimp only at hmade
  split at hmade
  · cases hmade
    exact ⟨hrow topic payload qos hdecode, Or.inr ⟨row.1, rfl⟩⟩
  · cases hmade

/-! ## The retained store -/

/-- Storing a message, or clearing its topic, brings no other contents in. -/
theorem RetainedStore.Carries.apply {store : RetainedStore} (hstore : store.Carries P) {m : Message}
    (hm : P m.topic m.payload) : (store.apply m).Carries P := by
  intro topic m' hm'
  rw [RetainedStore.lookup_apply, Message.replaces] at hm'
  split at hm'
  · split at hm'
    · cases hm'
    · cases hm'
      exact hm
  · exact hstore topic m' hm'

theorem RetainedStore.Carries.foldl {messages : List Message} {store : RetainedStore}
    (hstore : store.Carries P) (hmessages : ∀ m ∈ messages, P m.topic m.payload) :
    (messages.foldl RetainedStore.apply store).Carries P := by
  induction messages generalizing store with
  | nil => exact hstore
  | cons m rest ih =>
      rw [List.forall_mem_cons] at hmessages
      exact ih (hstore.apply hmessages.1) hmessages.2

/-- A filter selects from the store. -/
theorem RetainedStore.Carries.matching {store : RetainedStore} (hstore : store.Carries P)
    (filter : TopicFilter) : ∀ m ∈ store.matching filter, P m.topic m.payload := by
  intro m hm
  rw [RetainedStore.matching, List.mem_insertionSort] at hm
  obtain ⟨entry, hentry, rfl⟩ := List.mem_map.mp hm
  exact hstore entry.1 entry.2 (AssocMap.mem_entries_iff.mp (List.mem_of_mem_filter hentry))

/-! ## The store -/

theorem Storage.carries_empty : Storage.empty.Carries P where
  retained _ _ _ hrow := by
    rw [show Storage.empty.retained[_]? = none from Std.TreeMap.getElem?_emptyc] at hrow
    cases hrow
  inflight _ _ hrow := by
    rw [show Storage.empty.inflight[_]? = none from Std.TreeMap.getElem?_emptyc] at hrow
    cases hrow
  events _ hrow := nomatch hrow

/-- The log gains the one record. -/
theorem Storage.mem_appendEvent {st : Storage} {blob : Bytes} {retention : Nat} {row : Nat × Bytes}
    (hrow : row ∈ (st.appendEvent blob retention).events.toList) :
    row.2 = blob ∨ row ∈ st.events.toList := by
  have hinsert : row ∈ (st.events.insert (nextKey st.events) blob).toList := by
    simp only [appendEvent] at hrow
    split at hrow
    · rw [toList_prune _ _ _ (Nat.le_refl _)] at hrow
      exact List.mem_of_mem_drop hrow
    · exact hrow
  rcases Table.mem_toList_of_insert hinsert with rfl | hold
  · exact Or.inl rfl
  · exact Or.inr hold

/-- One case for each kind of write. -/
theorem Storage.Carries.applyPersistOp {st : Storage} (hst : st.Carries P) {op : PersistOp}
    (hop : op.Carries P) : (st.applyPersistOp op).Carries P where
  retained topic qos payload hrow := by
    rw [retained_applyPersistOp] at hrow
    cases op with
    | putRetained t body q =>
        simp only [PersistOp.retained?, Message.replaces] at hrow
        split at hrow
        next htopic =>
          split at hrow
          · cases hrow
          · cases hrow
            exact htopic ▸ hop
        next => exact hst.retained topic qos payload hrow
    | _ => exact hst.retained topic qos payload hrow
  inflight client blob hrow := by
    rw [inflight_applyPersistOp] at hrow
    cases op with
    | putInflight c b =>
        simp only [PersistOp.inflightRow] at hrow
        split at hrow
        · split at hrow
          · cases hrow
          · cases hrow
            exact hop
        · exact hst.inflight client blob hrow
    | removeSession c =>
        simp only [PersistOp.inflightRow] at hrow
        split at hrow
        · cases hrow
        · exact hst.inflight client blob hrow
    | _ => exact hst.inflight client blob hrow
  events row hrow := by
    cases hevent : op.event? with
    | none =>
        rw [events_applyPersistOp st hevent] at hrow
        exact hst.events row hrow
    | some event =>
        cases op with
        | appendEvent blob retention =>
            rcases Storage.mem_appendEvent hrow with hnew | hold
            · rw [hnew]
              exact hop
            · exact hst.events row hold
        | _ => cases hevent

theorem Storage.Carries.foldl {ops : List PersistOp} {st : Storage} (hst : st.Carries P)
    (hops : ∀ op ∈ ops, op.Carries P) : (ops.foldl Storage.applyPersistOp st).Carries P := by
  induction ops generalizing st with
  | nil => exact hst
  | cons op rest ih =>
      rw [List.forall_mem_cons] at hops
      exact ih (hst.applyPersistOp hops.1) hops.2

theorem Storage.Carries.loadRetained {st : Storage} (hst : st.Carries P) :
    ∀ m ∈ st.loadRetained, P m.topic m.payload := by
  intro m hm
  obtain ⟨⟨topic, bytes⟩, hrow, hmade⟩ := List.mem_filterMap.mp hm
  cases bytes with
  | nil => cases hmade
  | cons qos payload =>
      cases hmade
      exact hst.retained topic qos payload (Std.TreeMap.mem_toList_iff_getElem?_eq_some.mp hrow)

namespace Disk

variable {d : Disk}

theorem Carries.append (hd : d.Carries P) {ops : List PersistOp} (hops : ∀ op ∈ ops, op.Carries P) :
    Carries P { d with queue := d.queue ++ ops } :=
  ⟨hd.storage, List.forall_mem_append.mpr ⟨hd.queue, hops⟩⟩

/-- The worker moves contents from the queue to the tables. -/
theorem Carries.work (hd : d.Carries P) {d' : Disk} (hwork : d.work = some d') : d'.Carries P := by
  unfold Disk.work at hwork
  split at hwork
  · cases hwork
  next op rest hqueue =>
    cases hwork
    have hall := hd.queue
    rw [hqueue, List.forall_mem_cons] at hall
    exact ⟨hd.storage.applyPersistOp hall.1, hall.2⟩

/-- A crash keeps a part of what was to be written. -/
theorem Carries.crashed (hd : d.Carries P) (n : Nat) : (d.crashed n).Carries P :=
  hd.storage.foldl fun op hop => hd.queue op (List.mem_of_mem_take hop)

end Disk

/-! ## Startup -/

/-- A restored queue has the contents of its row. -/
theorem Storage.Carries.restoreSession {st : Storage} (hst : st.Carries P) (retry : RetryConfig)
    (now : Nat) (ps : PersistedSession) : (Hub.restoreSession st retry now ps).Carries P := by
  have hnew : (Session.new ps.clientId none ps.expirySecs 0).Carries P :=
    Session.carries_new _ _ _ _ fun _ hnone => nomatch hnone
  unfold Hub.restoreSession
  dsimp only
  split
  next nextId queue hload =>
    obtain ⟨blob, hblob, hdecode⟩ := Option.bind_eq_some_iff.mp hload
    obtain ⟨hlt, hqueued⟩ := queued_decodeInflight hdecode
    exact ⟨⟨hlt, hqueued⟩, hst.inflight _ blob hblob now retry nextId queue hdecode, hnew.channel⟩
  next => exact hnew

/-- What a broker starts with is what its store has. -/
theorem Hub.carries_new {storage : Option Storage} (hstorage : ∀ st ∈ storage, st.Carries P)
    (retry : RetryConfig) (eventLogMax now : Nat) :
    (Hub.new storage retry eventLogMax now).Carries P where
  consistent := consistent_new storage retry eventLogMax now
  sessions id s hs := by
    cases storage with
    | none => cases hs
    | some st =>
        rw [(rebuilt_new st retry eventLogMax now).byId] at hs
        obtain ⟨ps, -, rfl⟩ := Option.map_eq_some_iff.mp hs
        exact (hstorage st rfl).restoreSession retry now ps
  retained := by
    have hempty : RetainedStore.new.Carries P := fun _ _ hm => nomatch hm
    cases storage with
    | none => exact hempty
    | some st => exact hempty.foldl (hstorage st rfl).loadRetained
  disk d hd := by
    obtain ⟨st, hst, rfl⟩ := Option.map_eq_some_iff.mp hd
    exact ⟨hstorage st hst, fun _ hop => nomatch hop⟩

/-! ## Sections -/

/-- A section hands the sessions what it was given itself. -/
theorem Section.Carries.handlings {a : Section} (ha : a.Carries P) (h : Hub) (id : ClientId)
    (s : Session) : ∀ hd ∈ a.touches h id s, hd.Carries P := by
  intro hd hhd
  cases a with
  | connect clientId cleanStart expirySecs now =>
      rw [Section.touches] at hhd
      split at hhd
      · rcases List.mem_pair.mp hhd with rfl | rfl <;> trivial
      · cases hhd
  | detach id' generation =>
      rw [Section.touches] at hhd
      split at hhd
      · rw [List.mem_singleton.mp hhd]
        trivial
      · cases hhd
  | expire id' generation =>
      rw [Section.touches] at hhd
      split at hhd
      · rw [List.mem_singleton.mp hhd]
        trivial
      · cases hhd
  | deliver targets topic payload msgQos now =>
      obtain ⟨target, -, rfl⟩ := List.mem_map.mp hhd
      exact ha
  | replayRetained id' messages granted now =>
      rw [Section.touches] at hhd
      split at hhd
      · obtain ⟨m, hm, rfl⟩ := List.mem_map.mp hhd
        exact ha m hm
      · cases hhd
  | tick now =>
      rw [Section.touches] at hhd
      split at hhd
      · cases hhd
      · rw [List.mem_singleton.mp hhd]
        trivial
  | acknowledge id' ack =>
      rw [Section.touches] at hhd
      split at hhd
      · rw [List.mem_singleton.mp hhd]
        cases ack <;> trivial
      · cases hhd
  | send id' packets =>
      rw [Section.touches] at hhd
      split at hhd
      · rw [List.mem_singleton.mp hhd]
        exact ha
      · cases hhd
  | _ => cases hhd

namespace Hub

variable {h h' : Hub}

/-- After a section, every session holds such contents only. -/
theorem Carries.each (hh : h.Carries P) {a : Section} (ha : a.Carries P)
    (hact : h.act a = some h') : h'.Each (Session.Carries P) := by
  have htouched := touched_act (hh.consistent.lookup_eq_none (Nat.le_refl _)) hact
  intro id s' hs'
  cases hs : h.sessions.byId.lookup id with
  | none =>
      rw [(htouched.fresh id s' hs hs').2]
      exact Session.carries_new _ _ _ _ fun packets hpackets p hp => by cases hpackets; cases hp
  | some s =>
      obtain ⟨t, ht, halike⟩ := htouched.handled id s hs
      have hcarries := (hh.sessions id s hs).handleAll (ha.handlings h id s) ht
      rw [halike s' hs']
      exact hcarries.frame rfl rfl hcarries.channel

theorem Carries.retain (hh : h.Carries P) {a : Section} (ha : a.Carries P)
    (hact : h.act a = some h') : h'.retained.Carries P := by
  cases hretains : a.retains with
  | false =>
      rw [retained_act hretains hact]
      exact hh.retained
  | true =>
      cases a with
      | retain m =>
          cases hact
          exact hh.retained.apply ha
      | enqueue op =>
          cases hact
          exact hh.retained
      | _ => cases hretains

theorem Carries.work (hh : h.Carries P) (hwork : h.work = some h') : h'.Carries P := by
  obtain ⟨d, d', hd, hd', rfl⟩ := exists_of_work hwork
  refine ⟨hh.consistent, hh.sessions, hh.retained, fun d₁ hd₁ => ?_⟩
  cases hd₁
  exact (hh.disk d hd).work hd'

/-- Every section that is given such contents leaves such contents. -/
theorem Carries.act (hh : h.Carries P) {a : Section} (ha : a.Carries P)
    (hact : h.act a = some h') : h'.Carries P := by
  by_cases hwork : a = .work
  · subst hwork
    exact hh.work hact
  · refine ⟨hh.consistent.effect (act_effect hact), hh.each ha hact, hh.retain ha hact, ?_⟩
    have henqueue : ∀ op, a = .enqueue op → op.Carries P := by
      rintro op rfl
      exact ha
    obtain ⟨ops, hops, hall⟩ := queuesAll_act (fun _ _ _ => trivial) (fun _ => trivial) hwork
      henqueue hact
    intro d' hd'
    rw [hops.disk] at hd'
    obtain ⟨d, hd, rfl⟩ := Option.map_eq_some_iff.mp hd'
    exact (hh.disk d hd).append hall

end Hub

end Relay
