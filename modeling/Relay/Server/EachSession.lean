import Relay.Server.Retry
import Relay.Server.Sections

/-! # Properties of every session

The hub reaches a session only through the session's own calls. A property of the
packet-id counter and the in-flight queue that these calls keep therefore holds of
every session in every state of the hub. The instance proved here is what the
in-flight blobs need: counters and identifiers in range, and entries of the shapes
the decoder rebuilds.
-/

namespace Relay

/-- A property of counter and queue that a fresh session has and every call on a
session keeps. -/
structure Session.Kept (P : Session → Prop) : Prop where
  new : ∀ clientId tx expirySecs generation, P (Session.new clientId tx expirySecs generation)
  frame : ∀ {s s' : Session}, P s → s'.nextId = s.nextId → s'.inflight = s.inflight → P s'
  deliver : ∀ {s s' : Session} {topic payload qos retain now cfg},
    s.deliver topic payload qos retain now cfg = some s' → P s → P s'
  retransmit : ∀ {s : Session} now cfg, P s → P (s.retransmit now cfg)
  ack : ∀ {s : Session} (ack : Ack), P s → P (ack.apply s)
  tickRetries : ∀ {s : Session} now cfg, P s → P (s.tickRetries now cfg).1

namespace Hub

def Each (P : Session → Prop) (h : Hub) : Prop :=
  ∀ id s, h.sessions.byId.lookup id = some s → P s

variable {P : Session → Prop}

/-- Only the session that is written back needs the property. -/
theorem Each.set {h : Hub} (heach : h.Each P) (id : ClientId) {s : Session} (hs : P s) :
    (h.setSession id s).Each P := by
  intro i t ht
  simp only [setSession, AssocMap.lookup_modify] at ht
  split at ht
  · obtain ⟨_, -, rfl⟩ := Option.map_eq_some_iff.mp ht
    exact hs
  · exact heach i t ht

theorem Each.register {h : Hub} (heach : h.Each P) (hkept : Session.Kept P) (clientId : String)
    (expirySecs generation : Nat) : (h.register clientId expirySecs generation).Each P := by
  intro i t ht
  simp only [Hub.register, AssocMap.lookup_insert] at ht
  split at ht
  · cases ht
    exact hkept.new _ _ _ _
  · exact heach i t ht

theorem Each.persistMeta {h : Hub} (heach : h.Each P) (clientId : String) (expirySecs : Nat) :
    (h.persistMeta clientId expirySecs).Each P := by
  unfold Hub.persistMeta
  split <;> exact heach

theorem Each.dropSession {h : Hub} (heach : h.Each P) (id : ClientId) :
    (h.dropSession id).Each P := by
  intro i t ht
  simp only [Hub.dropSession, AssocMap.lookup_erase] at ht
  split at ht
  · cases ht
  · exact heach i t ht

theorem byId_discard (h : Hub) (id : ClientId) :
    (h.discard id).sessions.byId = h.sessions.byId.erase id := by
  unfold Hub.discard
  cases h.sessions.byId.lookup id <;> rfl

/-- Nothing is asked of the session that is removed. -/
theorem each_discard {h : Hub} {id : ClientId}
    (hothers : ∀ i s, i ≠ id → h.sessions.byId.lookup i = some s → P s) :
    (h.discard id).Each P := by
  intro i t ht
  rw [byId_discard, AssocMap.lookup_erase] at ht
  split at ht
  · cases ht
  next hne => exact hothers i t hne ht

/-! ## One section -/

section

variable (hkept : Session.Kept P)

include hkept

/-- A CONNECT keeps, resumes or creates a session. -/
theorem Each.connect {h h' : Hub} (heach : h.Each P) {clientId : String} {cleanStart : Bool}
    {expirySecs now : Nat} {c : Connected}
    (hconnect : h.connect clientId cleanStart expirySecs now = some (c, h')) : h'.Each P := by
  have hbump : h.bumpGeneration.Each P := heach
  rcases connect_cases hconnect with
    ⟨-, -, rfl⟩ | ⟨id, -, -, -, rfl⟩ | ⟨id, s, -, -, hs, -, rfl⟩
  · exact (hbump.register hkept _ _ _).persistMeta _ _
  · have hdrop : ((h.bumpGeneration.dropSession id).forgetPersisted clientId).Each P :=
      hbump.dropSession id
    exact (hdrop.register hkept _ _ _).persistMeta _ _
  · refine (hbump.set id (hkept.retransmit _ _ ?_)).persistMeta _ _
    exact hkept.frame (heach id s hs) rfl rfl

theorem Each.detach {h : Hub} (heach : h.Each P) (id : ClientId) (generation : Nat) :
    (h.detach id generation).Each P := by
  rcases h.detach_cases id generation with ⟨heq, -⟩ | ⟨s, hs, -, ⟨-, heq⟩ | ⟨-, timers, heq⟩⟩
  · rw [heq]
    exact heach
  · have hoffline : (h.setSession id { s with tx := none }).Each P :=
      heach.set id (hkept.frame (heach id s hs) rfl rfl)
    rw [heq]
    exact each_discard fun i t _ ht => hoffline i t ht
  · rw [heq]
    exact heach.set id (hkept.frame (heach id s hs) rfl rfl)

theorem Each.deliverTo {f f' : Fanout} (heach : f.hub.Each P) {topic : String} {payload : Bytes}
    {msgQos : QoS} {now : Nat} {target : ClientId × QoS}
    (hdeliver : deliverTo topic payload msgQos now f target = some f') : f'.hub.Each P := by
  unfold Hub.deliverTo at hdeliver
  split at hdeliver
  · cases hdeliver
    exact heach
  next s hs =>
    obtain ⟨s', hs', heq⟩ := Option.bind_eq_some_iff.mp hdeliver
    cases heq
    exact heach.set target.1 (hkept.deliver hs' (heach target.1 s hs))

/-- The delivery loop keeps the property of every session. -/
theorem Each.deliverAll {f f' : Fanout} (heach : f.hub.Each P) {targets : List (ClientId × QoS)}
    {topic : String} {payload : Bytes} {msgQos : QoS} {now : Nat}
    (hdeliver : targets.foldlM (Hub.deliverTo topic payload msgQos now) f = some f') :
    f'.hub.Each P := by
  induction targets generalizing f with
  | nil =>
      cases hdeliver
      exact heach
  | cons target rest ih =>
      rw [List.foldlM_cons] at hdeliver
      obtain ⟨f₁, hfirst, hrest⟩ := Option.bind_eq_some_iff.mp hdeliver
      exact ih (heach.deliverTo hkept hfirst) hrest

theorem kept_deliverMessages {granted : QoS} {now : Nat} {cfg : RetryConfig}
    {messages : List Message} {s s' : Session}
    (hdeliver : deliverMessages granted now cfg messages s = some s') (hs : P s) : P s' := by
  induction messages generalizing s with
  | nil =>
      cases hdeliver
      exact hs
  | cons msg rest ih =>
      obtain ⟨s₁, hfirst, hrest⟩ := Option.bind_eq_some_iff.mp hdeliver
      exact ih hrest (hkept.deliver hfirst hs)

/-- Retained messages are deliveries like others. -/
theorem Each.replayRetained {h h' : Hub} (heach : h.Each P) {id : ClientId}
    {messages : List Message} {granted : QoS} {now : Nat} {snapshot : Option (String × Bytes)}
    (hreplay : h.replayRetained id messages granted now = some (snapshot, h')) : h'.Each P := by
  unfold Hub.replayRetained at hreplay
  split at hreplay
  · cases hreplay
    exact heach
  next s hs =>
    obtain ⟨s', hs', heq⟩ := Option.bind_eq_some_iff.mp hreplay
    cases heq
    exact heach.set id (kept_deliverMessages hkept hs' (heach id s hs))

/-- The retry tick of every session keeps the property. -/
theorem Each.tickAll {h : Hub} (heach : h.Each P) (now : Nat) : (h.tickAll now).2.2.Each P := by
  intro i t ht
  simp only [Hub.tickAll, AssocMap.lookup_mapVal] at ht
  obtain ⟨s, hs, rfl⟩ := Option.map_eq_some_iff.mp ht
  unfold tickSession
  split
  · exact heach i s hs
  · exact hkept.tickRetries now h.retry (heach i s hs)

theorem kept_foldl_send (packets : List Packet) {s : Session} (hs : P s) :
    P (packets.foldl Session.send s) := by
  rw [Session.foldl_send]
  exact hkept.frame hs rfl rfl

/-- Every section keeps the property of every session. -/
theorem Each.act {h h' : Hub} (heach : h.Each P) {a : Section} (hact : h.act a = some h') :
    h'.Each P := by
  cases a with
  | connect clientId cleanStart expirySecs now =>
      obtain ⟨⟨c, h₁⟩, hconnect, rfl⟩ := Option.map_eq_some_iff.mp hact
      exact heach.connect hkept hconnect
  | detach id generation =>
      cases hact
      exact heach.detach hkept id generation
  | expire id generation =>
      cases hact
      rcases h.expire_cases id generation with ⟨heq, -⟩ | ⟨s, -, -, heq⟩
      · rw [heq]
        exact heach
      · rw [heq]
        refine each_discard fun i t hne ht => heach i t ?_
        simpa only [setSession, AssocMap.lookup_modify, if_neg hne] using ht
  | subscribe id filter qos =>
      cases hact
      exact heach
  | subscribeShared group id filter qos =>
      cases hact
      exact heach
  | unroute id raw =>
      cases hact
      exact heach
  | route topic =>
      cases hact
      exact heach
  | retain message =>
      cases hact
      exact heach
  | deliver targets topic payload msgQos now =>
      obtain ⟨f, hf, rfl⟩ := Option.map_eq_some_iff.mp hact
      exact Each.deliverAll hkept heach hf
  | replayRetained id messages granted now =>
      obtain ⟨⟨snapshot, h₁⟩, hreplay, rfl⟩ := Option.map_eq_some_iff.mp hact
      exact heach.replayRetained hkept hreplay
  | tick now =>
      cases hact
      exact heach.tickAll hkept now
  | acknowledge id ack =>
      cases hact
      unfold Hub.acknowledge
      split
      · exact heach
      next s hs => exact heach.set id (hkept.ack ack (heach id s hs))
  | qos2Seen id pid =>
      cases hact
      unfold inboundQos2Seen
      split
      next s hs => exact heach.set id (hkept.frame (heach id s hs) rfl rfl)
      next => exact heach
  | qos2Release id pid =>
      cases hact
      unfold inboundQos2Release
      split
      next s hs => exact heach.set id (hkept.frame (heach id s hs) rfl rfl)
      next => exact heach
  | send id packets =>
      cases hact
      unfold sendAll
      split
      · exact heach
      next s hs => exact heach.set id (kept_foldl_send hkept packets (heach id s hs))
  | enqueue op =>
      cases hact
      exact heach
  | work =>
      obtain ⟨d, d', -, -, rfl⟩ := exists_of_work hact
      exact heach

/-- What holds of every session holds after any sections. -/
theorem Each.reaches {h h' : Hub} (heach : h.Each P) (hreaches : h.Reaches h') : h'.Each P := by
  obtain ⟨sections, hrun⟩ := hreaches
  exact Machine.run_invariant (fun _ _ _ heach hact => Each.act hkept heach hact) heach hrun

end

end Hub

/-! ## Queues that can be written and read back -/

namespace Session

theorem bumpId_lt (id : Nat) : bumpId id < u16Bound := by
  unfold bumpId
  split
  · decide
  · exact Nat.mod_lt _ (by decide)

/-- The counter is a 16-bit number and every entry has the shape of a queued
message, so that the blob of the session can be read back. -/
structure Writable (s : Session) : Prop where
  lt : s.nextId < u16Bound
  queued : ∀ e ∈ s.inflight, e.Queued

structure Coded (s : Session) : Prop where
  pos : 0 < s.nextId
  lt : s.nextId < u16Bound
  queued : ∀ e ∈ s.inflight, e.Queued

theorem Coded.writable {s : Session} (hs : s.Coded) : s.Writable := ⟨hs.lt, hs.queued⟩

/-- Only a message that gets a packet id needs a counter that is not 0. -/
theorem Writable.received {s : Session} (hs : s.Writable) (topic : String) (payload : Bytes)
    {qos : QoS} (hpos : qos ≠ .atMostOnce → 0 < s.nextId) (retain : Bool) (now : Nat)
    (cfg : RetryConfig) : (s.received topic payload qos retain now cfg).Writable where
  lt := by
    unfold Session.received
    dsimp only
    split
    · exact hs.lt
    · exact bumpId_lt _
  queued := by
    have hfirst : 1 < u32Bound := by decide
    intro e he
    rcases List.mem_append.mp he with he | he
    · exact hs.queued e he
    · cases qos with
      | atMostOnce => cases he
      | atLeastOnce =>
          rw [List.mem_singleton.mp he]
          exact ⟨⟨rfl, rfl, rfl, s.nextId, rfl, hpos (by decide), hs.lt⟩, hfirst⟩
      | exactlyOnce =>
          rw [List.mem_singleton.mp he]
          exact ⟨⟨rfl, rfl, rfl, s.nextId, rfl, hpos (by decide), hs.lt⟩, hfirst⟩

/-- The entry that a PUBREC moves on keeps its identifier, which is in range. -/
theorem queued_awaitComp {pid : Nat} {queue queue' : List InflightEntry}
    (hawait : awaitComp pid queue = some queue') (hqueued : ∀ e ∈ queue, e.Queued) :
    ∀ e ∈ queue', e.Queued := by
  induction queue generalizing queue' with
  | nil => cases hawait
  | cons e rest ih =>
      rw [List.forall_mem_cons] at hqueued
      have hskip : (awaitComp pid rest).map (e :: ·) = some queue' → ∀ e ∈ queue', e.Queued := by
        intro hmap
        obtain ⟨tail, htail, rfl⟩ := Option.map_eq_some_iff.mp hmap
        exact List.forall_mem_cons.mpr ⟨hqueued.1, ih htail hqueued.2⟩
      unfold awaitComp at hawait
      split at hawait
      next p hstate =>
        split at hawait
        next hpid =>
          cases hawait
          have hp := hqueued.1.1
          rw [hstate] at hp
          obtain ⟨id, hid, hrange⟩ := Publish.Queued.packetId hp
          rw [hpid] at hid
          cases hid
          exact List.forall_mem_cons.mpr ⟨⟨hrange, hqueued.1.2⟩, hqueued.2⟩
        next => exact hskip hawait
      next => exact hskip hawait

theorem Writable.ack {s : Session} (hs : s.Writable) (ack : Ack) : (ack.apply s).Writable := by
  cases ack with
  | puback pid => exact ⟨hs.lt, fun e he => hs.queued e (List.mem_of_mem_filter he)⟩
  | pubrec pid =>
      simp only [Ack.apply, onPubrec]
      split
      next queue hqueue => exact ⟨hs.lt, queued_awaitComp hqueue hs.queued⟩
      next =>
        split
        · exact hs
        · exact ⟨hs.lt, hs.queued⟩
  | pubcomp pid => exact ⟨hs.lt, fun e he => hs.queued e (List.mem_of_mem_filter he)⟩

theorem nextId_ack (s : Session) (ack : Ack) : (ack.apply s).nextId = s.nextId := by
  obtain ⟨queue, packets, happly⟩ := ack.exists_apply s
  rw [happly]

theorem Writable.tickRetries {s : Session} (hs : s.Writable) (now : Nat) (cfg : RetryConfig) :
    (s.tickRetries now cfg).1.Writable := by
  rw [tickRetries_eq]
  refine ⟨hs.lt, ?_⟩
  intro e he
  obtain ⟨old, hold, hticked⟩ := List.mem_filterMap.mp he
  have hqueued := hs.queued old hold
  unfold InflightEntry.ticked at hticked
  split_ifs at hticked
  · cases hticked
    exact hqueued
  · cases hticked
    exact ⟨hqueued.1, Nat.mod_lt _ (by decide)⟩

/-- Every call on a session keeps its blob readable. -/
theorem kept_writable : Kept Writable where
  new _ _ _ _ := ⟨(by decide : 1 < u16Bound), fun _ he => nomatch he⟩
  frame hs hid hqueue := ⟨hid ▸ hs.lt, hqueue ▸ hs.queued⟩
  deliver := by
    intro s s' topic payload qos retain now cfg hdeliver hs
    rw [deliver_eq] at hdeliver
    split at hdeliver
    · cases hdeliver
    next hnot =>
      cases hdeliver
      refine hs.received topic payload (fun hqos => ?_) retain now cfg
      exact Nat.pos_of_ne_zero fun hzero => hnot ⟨hqos, hzero⟩
  retransmit := by
    intro s now cfg hs
    refine ⟨hs.lt, ?_⟩
    intro e he
    obtain ⟨old, hold, rfl⟩ := List.mem_map.mp he
    exact hs.queued old hold
  ack ack hs := hs.ack ack
  tickRetries now cfg hs := hs.tickRetries now cfg

/-- A call that leaves a writable session with a counter other than 0. -/
theorem Writable.coded {s : Session} (hs : s.Writable) (hpos : 0 < s.nextId) : s.Coded :=
  ⟨hpos, hs.lt, hs.queued⟩

/-- The counter starts at 1 and never becomes 0. -/
theorem kept_coded : Kept Coded where
  new _ _ _ _ := (kept_writable.new _ _ _ _).coded Nat.one_pos
  frame hs hid hqueue := (kept_writable.frame hs.writable hid hqueue).coded (hid ▸ hs.pos)
  deliver := by
    intro s s' topic payload qos retain now cfg hdeliver hs
    refine (kept_writable.deliver hdeliver hs.writable).coded ?_
    rw [deliver_eq] at hdeliver
    split at hdeliver
    · cases hdeliver
    · cases hdeliver
      unfold Session.received
      dsimp only
      split
      · exact hs.pos
      · exact bumpId_pos _
  retransmit now cfg hs := (kept_writable.retransmit now cfg hs.writable).coded hs.pos
  ack ack hs := (hs.writable.ack ack).coded ((nextId_ack _ ack).symm ▸ hs.pos)
  tickRetries now cfg hs := by
    refine (hs.writable.tickRetries now cfg).coded ?_
    rw [tickRetries_eq]
    exact hs.pos

end Session

end Relay
