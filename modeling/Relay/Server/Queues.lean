import Relay.Server.SessionTable

/-! # What an operation queues

Between two states of the hub the disk may only have got more writes in its
queue. Which kinds of writes an operation queues decides what it can do to the
rows of the store.
-/

namespace Relay

namespace Hub

/-- The hub has queued some writes, and nothing else happened to the disk. -/
structure Queues (h : Hub) (ops : List PersistOp) (h' : Hub) : Prop where
  disk : h'.disk = h.disk.map fun d => { d with queue := d.queue ++ ops }
  eventLogMax : h'.eventLogMax = h.eventLogMax

theorem queues_nil {h h' : Hub} (hdisk : h'.disk = h.disk)
    (hmax : h'.eventLogMax = h.eventLogMax) : Queues h [] h' := by
  refine ⟨?_, hmax⟩
  simp [hdisk]

theorem Queues.enqueue {h h' : Hub} {ops : List PersistOp} (hqueues : Queues h ops h')
    (op : PersistOp) : Queues h (ops ++ [op]) (h'.enqueue op) := by
  refine ⟨?_, hqueues.eventLogMax⟩
  simp only [Hub.enqueue, hqueues.disk, Option.map_map]
  congr 1
  funext d
  simp [Disk.enqueue]

/-- Writes queue up in order. -/
theorem Queues.trans {h₁ h₂ h₃ : Hub} {ops ops' : List PersistOp} (h₁₂ : Queues h₁ ops h₂)
    (h₂₃ : Queues h₂ ops' h₃) : Queues h₁ (ops ++ ops') h₃ := by
  refine ⟨?_, h₂₃.eventLogMax.trans h₁₂.eventLogMax⟩
  rw [h₂₃.disk, h₁₂.disk]
  cases h₁.disk <;> simp

/-- Only writes of a kind are queued. -/
def QueuesAll (P : PersistOp → Prop) (h h' : Hub) : Prop :=
  ∃ ops, Queues h ops h' ∧ ∀ op ∈ ops, P op

variable {P : PersistOp → Prop}

theorem queuesAll_same {h h' : Hub} (hdisk : h'.disk = h.disk)
    (hmax : h'.eventLogMax = h.eventLogMax) : QueuesAll P h h' :=
  ⟨[], queues_nil hdisk hmax, by simp⟩

/-- Nothing is queued. -/
theorem QueuesAll.disk_eq {h h' : Hub} (hqueues : QueuesAll (fun _ => False) h h') :
    h'.disk = h.disk := by
  obtain ⟨ops, hops, hall⟩ := hqueues
  have hnil : ops = [] := List.eq_nil_iff_forall_not_mem.mpr hall
  rw [hops.disk, hnil]
  simp

theorem QueuesAll.enqueue {h h' : Hub} (hqueues : QueuesAll P h h') {op : PersistOp}
    (hop : P op) : QueuesAll P h (h'.enqueue op) := by
  obtain ⟨ops, hops, hall⟩ := hqueues
  refine ⟨ops ++ [op], hops.enqueue op, fun op' hop' => ?_⟩
  rcases List.mem_append.mp hop' with hold | hnew
  · exact hall op' hold
  · rw [List.mem_singleton.mp hnew]
    exact hop

theorem QueuesAll.trans_same {h h' h'' : Hub} (hqueues : QueuesAll P h h')
    (hdisk : h''.disk = h'.disk) (hmax : h''.eventLogMax = h'.eventLogMax) :
    QueuesAll P h h'' := by
  obtain ⟨ops, hops, hall⟩ := hqueues
  exact ⟨ops, ⟨hdisk.trans hops.disk, hmax.trans hops.eventLogMax⟩, hall⟩

/-- Snapshots are in-flight rows. -/
theorem QueuesAll.writeAll {h h' : Hub} (hqueues : QueuesAll P h h')
    {snapshots : List (String × Bytes)}
    (hall : ∀ snapshot ∈ snapshots, P (.putInflight snapshot.1 snapshot.2)) :
    QueuesAll P h (h'.writeAll snapshots) := by
  induction snapshots generalizing h' with
  | nil => exact hqueues
  | cons snapshot rest ih =>
      rw [List.forall_mem_cons] at hall
      exact ih (hqueues.enqueue hall.1) hall.2

/-- Before it is routed, a publish queues an event, and a row if it is to be retained. -/
theorem queuesAll_announce {h : Hub} {topic : String} {payload : Bytes}
    {msgQos : QoS} {retain : Bool} (hretained : retain = true → P (.putRetained topic payload msgQos))
    (hevent : ∀ blob retention, P (.appendEvent blob retention)) (ts : Nat) :
    QueuesAll P h (h.announce topic payload msgQos retain ts) := by
  have hkept : QueuesAll P h (if retain then h.retain topic payload msgQos else h) := by
    have hsame : QueuesAll P h { h with
        retained := h.retained.apply { topic, payload, qos := msgQos, retain := true } } :=
      queuesAll_same rfl rfl
    split
    next hretain => exact hsame.enqueue (hretained hretain)
    next => exact queuesAll_same rfl rfl
  rw [announce]
  generalize (if retain then h.retain topic payload msgQos else h) = kept at hkept
  unfold journal
  split
  · exact hkept.enqueue (hevent _ _)
  · exact hkept

/-! ## The delivery loop queues nothing -/

/-- A delivery changes the sessions of the hub and nothing else. -/
theorem only_sessions_deliverTo {topic : String} {payload : Bytes} {msgQos : QoS} {now : Nat}
    {f f' : Fanout} {target : ClientId × QoS}
    (hdeliver : deliverTo topic payload msgQos now f target = some f') :
    f'.hub = { f.hub with sessions := f'.hub.sessions } := by
  unfold deliverTo at hdeliver
  split at hdeliver
  · cases hdeliver
    rfl
  · obtain ⟨s', -, heq⟩ := Option.bind_eq_some_iff.mp hdeliver
    cases heq
    rfl

/-- The delivery loop of a publish changes sessions only. -/
theorem only_sessions_deliverAll {h : Hub} {targets : List (ClientId × QoS)} {topic : String}
    {payload : Bytes} {msgQos : QoS} {now : Nat} {f : Fanout}
    (hdeliver : h.deliverAll targets topic payload msgQos now = some f) :
    f.hub = { h with sessions := f.hub.sessions } := by
  have hfold : ∀ (targets : List (ClientId × QoS)) (f f' : Fanout),
      targets.foldlM (deliverTo topic payload msgQos now) f = some f' →
      f'.hub = { f.hub with sessions := f'.hub.sessions } := by
    intro targets
    induction targets with
    | nil =>
        intro f f' hf
        cases hf
        rfl
    | cons target rest ih =>
        intro f f' hf
        rw [List.foldlM_cons] at hf
        obtain ⟨f₁, hfirst, hrest⟩ := Option.bind_eq_some_iff.mp hf
        rw [ih f₁ f' hrest, only_sessions_deliverTo hfirst]
  exact hfold targets ⟨0, [], h⟩ f hdeliver

/-- The delivery loop queues nothing: the snapshots are queued after it. -/
theorem disk_deliverAll {h : Hub} {targets : List (ClientId × QoS)} {topic : String}
    {payload : Bytes} {msgQos : QoS} {now : Nat} {f : Fanout}
    (hdeliver : h.deliverAll targets topic payload msgQos now = some f) :
    f.hub.disk = h.disk ∧ f.hub.eventLogMax = h.eventLogMax := by
  rw [only_sessions_deliverAll hdeliver]
  exact ⟨rfl, rfl⟩

/-! ## Other sections that queue nothing -/

theorem queuesAll_replayRetained {h h' : Hub} {id : ClientId} {messages : List Message}
    {granted : QoS} {now : Nat} {snapshot : Option (String × Bytes)}
    (hreplay : h.replayRetained id messages granted now = some (snapshot, h')) :
    QueuesAll P h h' := by
  unfold replayRetained at hreplay
  split at hreplay
  · cases hreplay
    exact queuesAll_same rfl rfl
  · obtain ⟨s', -, heq⟩ := Option.bind_eq_some_iff.mp hreplay
    cases heq
    exact queuesAll_same rfl rfl

theorem queuesAll_acknowledge (h : Hub) (id : ClientId) (ack : Ack) :
    QueuesAll P h (h.acknowledge id ack.apply).2 := by
  unfold acknowledge
  split <;> exact queuesAll_same rfl rfl

/-! ## Every section

Sessions that come and go queue writes of session rows, and no other section
queues a write of its own accord. -/

theorem QueuesAll.persistMeta {h h' : Hub} (hqueues : QueuesAll P h h') {clientId : String}
    {expirySecs : Nat} (hput : 0 < expirySecs → P (.putSession clientId expirySecs))
    (hremove : P (.removeSession clientId)) :
    QueuesAll P h (h'.persistMeta clientId expirySecs) := by
  unfold Hub.persistMeta
  split
  next hpos => exact hqueues.enqueue (hput hpos)
  · exact hqueues.enqueue hremove

theorem QueuesAll.discard {h h' : Hub} (hqueues : QueuesAll P h h') {id : ClientId}
    (hremove : ∀ s ∈ h'.sessions.byId.lookup id, P (.removeSession s.clientId)) :
    QueuesAll P h (h'.discard id) := by
  unfold Hub.discard
  split
  next s hs =>
    refine QueuesAll.enqueue (hqueues.trans_same ?_ ?_) (hremove s hs) <;> rfl
  · exact hqueues.trans_same rfl rfl

/-- A CONNECT writes about its own client only. -/
theorem queuesAll_connect {h h' : Hub} {clientId : String} {cleanStart : Bool}
    {expirySecs now : Nat} {c : Connected}
    (hput : 0 < expirySecs → P (.putSession clientId expirySecs))
    (hremove : P (.removeSession clientId))
    (hconnect : h.connect clientId cleanStart expirySecs now = some (c, h')) :
    QueuesAll P h h' := by
  rcases connect_cases hconnect with
    ⟨-, -, rfl⟩ | ⟨id, -, -, -, rfl⟩ | ⟨id, s, -, -, -, -, rfl⟩
  · refine QueuesAll.persistMeta (queuesAll_same ?_ ?_) hput hremove <;> rfl
  · have hdropped : QueuesAll P h (h.bumpGeneration.dropSession id) := queuesAll_same rfl rfl
    have hforgotten : QueuesAll P h
        ((h.bumpGeneration.dropSession id).forgetPersisted clientId) :=
      hdropped.enqueue hremove
    refine QueuesAll.persistMeta (hforgotten.trans_same ?_ ?_) hput hremove <;> rfl
  · refine QueuesAll.persistMeta (queuesAll_same ?_ ?_) hput hremove <;> rfl

theorem QueuesAll.discard_set {h : Hub} {id : ClientId} {s s' : Session}
    (hs : h.sessions.byId.lookup id = some s) (hclient : s'.clientId = s.clientId)
    (hremove : P (.removeSession s.clientId)) :
    QueuesAll P h ((h.setSession id s').discard id) := by
  refine QueuesAll.discard (queuesAll_same ?_ ?_) fun t ht => ?_
  · rfl
  · rfl
  · have hset : (h.setSession id s').sessions.byId.lookup id = some s' := by
      simp [setSession, AssocMap.lookup_modify, hs]
    rw [Option.some.inj (ht.symm.trans hset), hclient]
    exact hremove

/-- A detach can only remove the session's own rows. -/
theorem queuesAll_detach {h : Hub} {id : ClientId}
    (hremove : ∀ s ∈ h.sessions.byId.lookup id, P (.removeSession s.clientId))
    (generation : Nat) : QueuesAll P h (h.detach id generation) := by
  rcases h.detach_cases id generation with ⟨heq, -⟩ | ⟨s, hs, -, ⟨-, heq⟩ | ⟨-, timers, heq⟩⟩
  · rw [heq]
    exact queuesAll_same rfl rfl
  · rw [heq]
    refine QueuesAll.discard_set hs ?_ (hremove s hs)
    rfl
  · rw [heq]
    exact queuesAll_same rfl rfl

theorem queuesAll_expire {h : Hub} {id : ClientId}
    (hremove : ∀ s ∈ h.sessions.byId.lookup id, P (.removeSession s.clientId))
    (generation : Nat) : QueuesAll P h (h.expire id generation).2 := by
  rcases h.expire_cases id generation with ⟨heq, -⟩ | ⟨s, hs, -, heq⟩
  · rw [heq]
    exact queuesAll_same rfl rfl
  · rw [heq]
    refine QueuesAll.discard_set hs ?_ (hremove s hs)
    rfl

/-- A section that neither attaches nor removes a session, and is no worker round,
queues at most the write it is for. -/
theorem queuesAll_unmoved {h h' : Hub} {a : Section} (hmoves : a.moves = false)
    (hwork : a ≠ .work) (henqueue : ∀ op, a = .enqueue op → P op) (hact : h.act a = some h') :
    QueuesAll P h h' := by
  have hsame : QueuesAll P h h := queuesAll_same rfl rfl
  cases a with
  | connect => cases hmoves
  | detach => cases hmoves
  | expire => cases hmoves
  | deliver targets topic payload msgQos now =>
      obtain ⟨f, hf, rfl⟩ := Option.map_eq_some_iff.mp hact
      exact queuesAll_same (disk_deliverAll hf).1 (disk_deliverAll hf).2
  | replayRetained id messages granted now =>
      obtain ⟨⟨snapshot, h''⟩, hreplay, rfl⟩ := Option.map_eq_some_iff.mp hact
      exact queuesAll_replayRetained hreplay
  | acknowledge id ack =>
      cases hact
      exact queuesAll_acknowledge h id ack
  | qos2Seen id pid =>
      cases hact
      unfold inboundQos2Seen
      split
      · exact queuesAll_same rfl rfl
      · exact hsame
  | qos2Release id pid =>
      cases hact
      unfold inboundQos2Release
      split
      · exact queuesAll_same rfl rfl
      · exact hsame
  | send id packets =>
      cases hact
      unfold sendAll
      split
      · exact hsame
      · exact queuesAll_same rfl rfl
  | enqueue op =>
      cases hact
      exact hsame.enqueue (henqueue op rfl)
  | work => exact absurd rfl hwork
  | _ =>
      cases hact
      exact queuesAll_same rfl rfl

/-- A section other than a worker round queues only writes of a kind that has the
writes of session rows and the write the section is for, if it is for one. -/
theorem queuesAll_act
    (hput : ∀ clientId expirySecs, 0 < expirySecs → P (.putSession clientId expirySecs))
    (hremove : ∀ clientId, P (.removeSession clientId)) {h h' : Hub} {a : Section}
    (hwork : a ≠ .work) (henqueue : ∀ op, a = .enqueue op → P op) (hact : h.act a = some h') :
    QueuesAll P h h' := by
  cases hmoves : a.moves with
  | false => exact queuesAll_unmoved hmoves hwork henqueue hact
  | true =>
      cases a with
      | connect clientId cleanStart expirySecs now =>
          obtain ⟨⟨c, h''⟩, hconnect, rfl⟩ := Option.map_eq_some_iff.mp hact
          exact queuesAll_connect (hput clientId expirySecs) (hremove clientId) hconnect
      | detach id generation =>
          cases hact
          exact queuesAll_detach (fun s _ => hremove s.clientId) generation
      | expire id generation =>
          cases hact
          exact queuesAll_expire (fun s _ => hremove s.clientId) generation
      | _ => cases hmoves

end Hub

end Relay
