import Relay.Server.Fanout
import Relay.Server.Queues
import Relay.Server.Retry

/-! # In-flight snapshots

Operations that change in-flight queues collect snapshots under the lock and
queue them afterwards. Per client only the last snapshot matters, both among
those collected and in the row the worker ends up with. Every such operation
takes its snapshots so that a durable session without one has the queue it had
before, and the last one taken is the queue the session has now.
-/

namespace Relay

def latest (client : String) (snapshots : List (String × Bytes)) : Option Bytes :=
  ((snapshots.filter fun snap => snap.1 = client).getLast?).map Prod.snd

section Latest

variable {client : String} {snapshots : List (String × Bytes)}

theorem latest_append (more : List (String × Bytes)) :
    latest client (snapshots ++ more) = (latest client more).or (latest client snapshots) := by
  simp only [latest, List.filter_append, List.getLast?_append]
  cases (more.filter fun snap => snap.1 = client).getLast? <;> rfl

theorem mem_of_latest {blob : Bytes} (hlatest : latest client snapshots = some blob) :
    (client, blob) ∈ snapshots := by
  obtain ⟨⟨c, b⟩, hlast, rfl⟩ := Option.map_eq_some_iff.mp hlatest
  obtain ⟨hmem, hclient⟩ := List.mem_filter.mp (List.mem_of_getLast? hlast)
  have hclient : c = client := of_decide_eq_true hclient
  exact hclient ▸ hmem

theorem not_mem_of_latest_eq_none (hlatest : latest client snapshots = none) (blob : Bytes) :
    (client, blob) ∉ snapshots := by
  intro hmem
  rw [latest, Option.map_eq_none_iff, List.getLast?_eq_none_iff, List.filter_eq_nil_iff] at hlatest
  exact hlatest _ hmem (decide_eq_true rfl)

theorem latest_singleton (snap : String × Bytes) :
    latest client [snap] = if snap.1 = client then some snap.2 else none := by
  by_cases heq : snap.1 = client <;> simp [latest, heq]

end Latest

/-! ## The in-flight row of a client -/

/-- What a queued write makes of a client's in-flight row. -/
def PersistOp.inflightRow (client : String) (row : Option Bytes) : PersistOp → Option Bytes
  | .putInflight c blob => if c = client then (if blob = [] then none else some blob) else row
  | .removeSession c => if c = client then none else row
  | _ => row

/-- In-flight rows one at a time. -/
theorem Storage.inflight_applyPersistOp (st : Storage) (op : PersistOp) (client : String) :
    (st.applyPersistOp op).inflight[client]? = op.inflightRow client st.inflight[client]? := by
  cases op with
  | putInflight c blob =>
      simp only [applyPersistOp, putInflight, PersistOp.inflightRow]
      by_cases hblob : blob = []
      · simp [hblob, Std.TreeMap.getElem?_erase]
      · simp [hblob, Std.TreeMap.getElem?_insert]
  | removeSession c =>
      simp [applyPersistOp, removeSession, PersistOp.inflightRow, Std.TreeMap.getElem?_erase]
  | putRetained topic payload qos =>
      simp only [applyPersistOp, putRetained]
      split <;> rfl
  | putSession _ _ => rfl
  | putSubscription _ _ _ => rfl
  | removeSubscription _ _ => rfl
  | appendDeadLetter _ => rfl
  | appendEvent _ _ => rfl
  | flush _ => rfl

theorem Session.encodeInflight_ne_nil (s : Session) : s.encodeInflight ≠ [] := by
  intro h
  have hlen := congrArg List.length h
  simp [encodeInflight] at hlen

namespace Hub

/-- The in-flight row a client has once the worker has drained the queue. -/
def inflightRow (h : Hub) (client : String) : Option Bytes :=
  h.disk.bind fun d => d.settled.inflight[client]?

theorem inflightRow_enqueue {h : Hub} (hdisk : h.disk.isSome) (op : PersistOp) (client : String) :
    (h.enqueue op).inflightRow client = op.inflightRow client (h.inflightRow client) := by
  obtain ⟨d, hd⟩ := Option.isSome_iff_exists.mp hdisk
  simp [inflightRow, enqueue, hd, Storage.inflight_applyPersistOp]

/-- The worker only brings forward what is queued. -/
theorem inflightRow_work {h h' : Hub} (hwork : h.work = some h') (client : String) :
    h'.inflightRow client = h.inflightRow client := by
  obtain ⟨d, d', hd, hd', rfl⟩ := exists_of_work hwork
  simp [inflightRow, hd, Disk.settled_work hd']

/-- Writing snapshots in order leaves the last one of the client. -/
theorem inflightRow_writeAll {h : Hub} (hdisk : h.disk.isSome) (client : String)
    (snapshots : List (String × Bytes)) :
    (h.writeAll snapshots).inflightRow client =
      match latest client snapshots with
      | some blob => if blob = [] then none else some blob
      | none => h.inflightRow client := by
  induction snapshots generalizing h with
  | nil => rfl
  | cons snap rest ih =>
      have hdisk' : (h.writeInflight snap).disk.isSome := by
        simpa [writeInflight, enqueue] using hdisk
      rw [writeAll, List.foldl_cons, ← writeAll, ih hdisk', ← List.singleton_append,
        latest_append, latest_singleton]
      cases hlatest : latest client rest with
      | some blob => rfl
      | none =>
          rw [writeInflight, inflightRow_enqueue hdisk, PersistOp.inflightRow, Option.none_or]
          by_cases hclient : snap.1 = client <;> simp [hclient]

/-! ## What an operation snapshots -/

/-- The snapshots taken on the way from one hub to another describe what changed
in the queues of durable sessions. -/
structure Snapshots (h : Hub) (snapshots : List (String × Bytes)) (h' : Hub) : Prop where
  kept : ∀ id s', h'.sessions.byId.lookup id = some s' →
    ∃ s, h.sessions.byId.lookup id = some s ∧ s'.clientId = s.clientId ∧
      s'.expirySecs = s.expirySecs ∧
      (latest s.clientId snapshots = none → 0 < s.expirySecs →
        s'.nextId = s.nextId ∧ s'.inflight = s.inflight)
  taken : ∀ client blob, latest client snapshots = some blob →
    ∃ id s', h'.sessions.byId.lookup id = some s' ∧ s'.clientId = client ∧
      0 < s'.expirySecs ∧ blob = s'.encodeInflight

theorem Snapshots.refl (h : Hub) : Snapshots h [] h where
  kept id s hs := ⟨s, hs, rfl, rfl, fun _ _ => ⟨rfl, rfl⟩⟩
  taken client blob hlatest := by simp [latest] at hlatest

theorem snapshotInflight_eq {h : Hub} (hdisk : h.disk.isSome) (s : Session) :
    h.snapshotInflight s =
      if 0 < s.expirySecs then some (s.clientId, s.encodeInflight) else none := by
  simp [snapshotInflight, hdisk]

/-- Changing one session, with a snapshot unless its counter and queue stayed. -/
theorem Snapshots.set {h h₁ : Hub} {snapshots : List (String × Bytes)}
    (hsnap : Snapshots h snapshots h₁) (hdisk : h₁.disk.isSome) {id : ClientId} {s s' : Session}
    (hlookup : h₁.sessions.byId.lookup id = some s) (hframe : Session.Frame s s')
    {snapshot : Option (String × Bytes)}
    (hwhich : snapshot = h₁.snapshotInflight s' ∨
      snapshot = none ∧ s'.nextId = s.nextId ∧ s'.inflight = s.inflight) :
    Snapshots h (snapshots ++ snapshot.toList) (h₁.setSession id s') := by
  rw [snapshotInflight_eq hdisk] at hwhich
  -- a durable session whose client has no snapshot has not changed
  have hsame : latest s.clientId snapshot.toList = none → 0 < s.expirySecs →
      s'.nextId = s.nextId ∧ s'.inflight = s.inflight := by
    intro hnone hpos
    rcases hwhich with rfl | ⟨-, hsame⟩
    · rw [if_pos (hframe.expirySecs ▸ hpos), Option.toList_some, latest_singleton,
        if_pos hframe.clientId] at hnone
      cases hnone
    · exact hsame
  constructor
  · intro i t' ht'
    rw [lookup_setSession hlookup] at ht'
    split at ht'
    next heq =>
      cases ht'
      subst heq
      obtain ⟨s₀, hs₀, hclient, hexpiry, hnone⟩ := hsnap.kept i s hlookup
      refine ⟨s₀, hs₀, hframe.clientId.trans hclient, hframe.expirySecs.trans hexpiry, ?_⟩
      intro hlatest hpos
      rw [latest_append, Option.or_eq_none_iff] at hlatest
      obtain ⟨hid, hqueue⟩ := hnone hlatest.2 hpos
      obtain ⟨hid', hqueue'⟩ := hsame (hclient ▸ hlatest.1) (hexpiry ▸ hpos)
      exact ⟨hid'.trans hid, hqueue'.trans hqueue⟩
    · obtain ⟨t, ht, hclient, hexpiry, hnone⟩ := hsnap.kept i t' ht'
      refine ⟨t, ht, hclient, hexpiry, fun hlatest => hnone ?_⟩
      rw [latest_append, Option.or_eq_none_iff] at hlatest
      exact hlatest.2
  · intro client blob hlatest
    rw [latest_append] at hlatest
    cases hnew : latest client snapshot.toList with
    | some new =>
        rw [hnew, Option.some_or, Option.some.injEq] at hlatest
        subst hlatest
        have hmem := mem_of_latest hnew
        rcases hwhich with rfl | ⟨rfl, -⟩
        · split at hmem
          next hpos =>
            obtain ⟨rfl, rfl⟩ := Prod.mk.inj (List.mem_singleton.mp hmem)
            exact ⟨id, s', by rw [lookup_setSession hlookup, if_pos rfl], rfl, hpos, rfl⟩
          · cases hmem
        · cases hmem
    | none =>
        rw [hnew, Option.none_or] at hlatest
        obtain ⟨i, t, ht, hclient, hpos, hblob⟩ := hsnap.taken client blob hlatest
        by_cases heq : i = id
        · subst heq
          rw [hlookup] at ht
          cases ht
          obtain ⟨hid, hqueue⟩ := hsame (hclient ▸ hnew) hpos
          refine ⟨i, s', by rw [lookup_setSession hlookup, if_pos rfl],
            hframe.clientId.trans hclient, hframe.expirySecs ▸ hpos, ?_⟩
          rw [hblob, Session.encodeInflight, Session.encodeInflight, hid, hqueue]
        · exact ⟨i, t, by rw [lookup_setSession hlookup, if_neg heq, ht], hclient, hpos, hblob⟩

/-- The handle of a client is unique. -/
theorem Consistent.id_unique {h : Hub} (hcons : h.Consistent) {i j : ClientId} {s t : Session}
    (hs : h.sessions.byId.lookup i = some s) (ht : h.sessions.byId.lookup j = some t)
    (hclient : s.clientId = t.clientId) : i = j := by
  have hi := (hcons.inverse s.clientId i).mpr (clientOf_eq_some_iff.mpr ⟨s, hs, rfl⟩)
  have hj := (hcons.inverse s.clientId j).mpr (clientOf_eq_some_iff.mpr ⟨t, ht, hclient.symm⟩)
  exact Option.some.inj (hi.symm.trans hj)

/-- A delivery that takes no snapshot leaves counter and queue alone. -/
theorem deliver_atMostOnce {s s' : Session} {topic : String} {payload : Bytes} {retain : Bool}
    {now : Nat} {cfg : RetryConfig}
    (hdeliver : s.deliver topic payload .atMostOnce retain now cfg = some s') :
    s'.nextId = s.nextId ∧ s'.inflight = s.inflight := by
  cases hdeliver
  exact ⟨rfl, rfl⟩

theorem snapshots_deliverTo {h : Hub} {topic : String} {payload : Bytes} {msgQos : QoS} {now : Nat}
    {f f' : Fanout} {target : ClientId × QoS} (hdisk : f.hub.disk.isSome)
    (hsnap : Snapshots h f.toPersist f.hub)
    (hdeliver : deliverTo topic payload msgQos now f target = some f') :
    Snapshots h f'.toPersist f'.hub := by
  unfold deliverTo at hdeliver
  split at hdeliver
  · cases hdeliver
    exact hsnap
  next s hlookup =>
    obtain ⟨s', hs', heq⟩ := Option.bind_eq_some_iff.mp hdeliver
    cases heq
    refine hsnap.set hdisk hlookup (Session.frame_of_holder (Session.holder_deliver hs')) ?_
    split
    next hqos =>
      rw [hqos] at hs'
      exact Or.inr ⟨rfl, deliver_atMostOnce hs'⟩
    · exact Or.inl rfl

/-- The loop collects a snapshot of every durable target. -/
theorem snapshots_deliverAll {h : Hub} {targets : List (ClientId × QoS)} {topic : String}
    {payload : Bytes} {msgQos : QoS} {now : Nat} {f : Fanout} (hdisk : h.disk.isSome)
    (hdeliver : h.deliverAll targets topic payload msgQos now = some f) :
    Snapshots h f.toPersist f.hub := by
  have hfold : ∀ (targets : List (ClientId × QoS)) (f f' : Fanout), f.hub.disk.isSome →
      Snapshots h f.toPersist f.hub →
      targets.foldlM (deliverTo topic payload msgQos now) f = some f' →
      Snapshots h f'.toPersist f'.hub := by
    intro targets
    induction targets with
    | nil =>
        intro f f' _ hsnap hf
        cases hf
        exact hsnap
    | cons target rest ih =>
        intro f f' hdisk hsnap hf
        rw [List.foldlM_cons] at hf
        obtain ⟨f₁, hfirst, hrest⟩ := Option.bind_eq_some_iff.mp hf
        have hdisk₁ : f₁.hub.disk.isSome := by
          rw [only_sessions_deliverTo hfirst]
          exact hdisk
        exact ih f₁ f' hdisk₁ (snapshots_deliverTo hdisk hsnap hfirst)
          hrest
  exact hfold targets ⟨0, [], h⟩ f hdisk (Snapshots.refl h) hdeliver

/-- Retained messages that are all delivered at QoS 0 leave counter and queue
alone. -/
theorem deliverMessages_atMostOnce {granted : QoS} {now : Nat} {cfg : RetryConfig}
    {messages : List Message} {s s' : Session}
    (hqos : ∀ msg ∈ messages, min msg.qos granted = .atMostOnce)
    (hdeliver : deliverMessages granted now cfg messages s = some s') :
    s'.nextId = s.nextId ∧ s'.inflight = s.inflight := by
  induction messages generalizing s with
  | nil =>
      cases hdeliver
      exact ⟨rfl, rfl⟩
  | cons msg rest ih =>
      obtain ⟨s₁, hfirst, hrest⟩ := Option.bind_eq_some_iff.mp hdeliver
      rw [hqos msg List.mem_cons_self] at hfirst
      obtain ⟨hid, hqueue⟩ := deliver_atMostOnce hfirst
      obtain ⟨hid', hqueue'⟩ := ih (fun m hm => hqos m (List.mem_cons_of_mem _ hm)) hrest
      exact ⟨hid'.trans hid, hqueue'.trans hqueue⟩

theorem snapshots_replayRetained {h h' : Hub} {id : ClientId} {messages : List Message}
    {granted : QoS} {now : Nat} {snapshot : Option (String × Bytes)} (hdisk : h.disk.isSome)
    (hreplay : h.replayRetained id messages granted now = some (snapshot, h')) :
    Snapshots h snapshot.toList h' ∧ h'.disk = h.disk := by
  unfold replayRetained at hreplay
  split at hreplay
  · cases hreplay
    exact ⟨Snapshots.refl h, rfl⟩
  next s hlookup =>
    obtain ⟨s', hs', heq⟩ := Option.bind_eq_some_iff.mp hreplay
    cases heq
    have hframe := Session.frame_of_holder (Session.holder_deliverMessages hs')
    refine ⟨(Snapshots.refl h).set hdisk hlookup hframe ?_, rfl⟩
    split
    · exact Or.inl rfl
    next hqueued =>
      refine Or.inr ⟨rfl, deliverMessages_atMostOnce ?_ hs'⟩
      simpa using hqueued

theorem snapshots_acknowledge {h : Hub} (hdisk : h.disk.isSome) (id : ClientId) (ack : Ack) :
    Snapshots h (h.acknowledge id ack.apply).1.toList (h.acknowledge id ack.apply).2 ∧
      (h.acknowledge id ack.apply).2.disk = h.disk := by
  unfold acknowledge
  split
  · exact ⟨Snapshots.refl h, rfl⟩
  next s hlookup =>
    have hframe := Session.frame_of_holder (s.holder_ack ack)
    exact ⟨(Snapshots.refl h).set hdisk hlookup hframe (Or.inl rfl), rfl⟩

/-- A tick that reports no change makes none. -/
theorem tickSession_unchanged {h : Hub} {now : Nat} {s : Session}
    (hchanged : (h.tickSession now s).2.2 = false) :
    (h.tickSession now s).1.nextId = s.nextId ∧ (h.tickSession now s).1.inflight = s.inflight := by
  unfold tickSession at hchanged ⊢
  split at hchanged
  next hoffline =>
    rw [if_pos hoffline]
    exact ⟨rfl, rfl⟩
  next honline =>
    rw [if_neg honline, Session.tickRetries_eq]
    rw [Session.tickRetries_eq, List.any_eq_false] at hchanged
    refine ⟨rfl, (List.filterMap_congr ?_).trans List.filterMap_some⟩
    intro e he
    have hnot : now < e.nextDue := by simpa [InflightEntry.due] using hchanged e he
    simp [InflightEntry.ticked, hnot]

/-- A tick takes snapshots of the queues that it changed. -/
theorem snapshots_tickAll {h : Hub} (hdisk : h.disk.isSome) (now : Nat) :
    Snapshots h (h.tickAll now).2.1 (h.tickAll now).2.2 := by
  have hmem : ∀ client blob, (client, blob) ∈ (h.tickAll now).2.1 ↔
      ∃ s ∈ h.sessions.byId.values, (h.tickSession now s).2.2 = true ∧
        h.snapshotInflight (h.tickSession now s).1 = some (client, blob) := by
    intro client blob
    simp [tickAll, List.mem_filterMap]
  have hlookup : ∀ i, (h.tickAll now).2.2.sessions.byId.lookup i =
      (h.sessions.byId.lookup i).map fun s => (h.tickSession now s).1 := fun i =>
    AssocMap.lookup_mapVal _ _ i
  constructor
  · intro i s' hs'
    obtain ⟨s, hs, rfl⟩ := Option.map_eq_some_iff.mp ((hlookup i).symm.trans hs')
    have hframe := Session.frame_of_holder (h.holder_tickSession now s)
    refine ⟨s, hs, hframe.clientId, hframe.expirySecs, fun hnone hpos => ?_⟩
    cases hchanged : (h.tickSession now s).2.2 with
    | false => exact tickSession_unchanged hchanged
    | true =>
        have hsnapshot : h.snapshotInflight (h.tickSession now s).1 =
            some (s.clientId, (h.tickSession now s).1.encodeInflight) := by
          rw [snapshotInflight_eq hdisk, if_pos (hframe.expirySecs ▸ hpos), hframe.clientId]
        have hvalue := AssocMap.mem_values_iff.mpr ⟨i, hs⟩
        exact absurd ((hmem _ _).mpr ⟨s, hvalue, hchanged, hsnapshot⟩)
          (not_mem_of_latest_eq_none hnone _)
  · intro client blob hlatest
    obtain ⟨s, hvalue, -, hsnapshot⟩ := (hmem _ _).mp (mem_of_latest hlatest)
    obtain ⟨i, hs⟩ := AssocMap.mem_values_iff.mp hvalue
    rw [snapshotInflight_eq hdisk] at hsnapshot
    split at hsnapshot
    next hpos =>
      cases hsnapshot
      exact ⟨i, _, by rw [hlookup, hs, Option.map_some], rfl, hpos, rfl⟩
    · cases hsnapshot

end Hub

end Relay
