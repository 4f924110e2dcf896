import Relay.Foundation.LastWrite
import Relay.Server.Reload
import Relay.Server.RetainedWrites

/-! # What loading makes of a history of writes

The rows of all clients share flat tables, subscriptions under a key that joins
client and filter. What is read back nevertheless depends, client by client and
topic by topic, on the last write that concerned it: each of them is a register
of its own.
-/

namespace Relay

namespace PersistOp

/-- The client identifier that a write carries. -/
def client? : PersistOp → Option String
  | .putSession c _ => some c
  | .removeSession c => some c
  | .putSubscription c _ _ => some c
  | .removeSubscription c _ => some c
  | .putInflight c _ => some c
  | _ => none

/-- Writes of the session of a client. -/
def sessionWrite (client : String) : PersistOp → Option (Option Nat)
  | .putSession c expirySecs => if c = client then some (some expirySecs) else none
  | .removeSession c => if c = client then some none else none
  | _ => none

/-- Writes of one subscription of a client; removing the session clears it. -/
def subscriptionWrite (client raw : String) : PersistOp → Option (Option QoS)
  | .putSubscription c r qos => if c = client ∧ r = raw then some (some qos) else none
  | .removeSubscription c r => if c = client ∧ r = raw then some none else none
  | .removeSession c => if c = client then some none else none
  | _ => none

/-- Writes of the in-flight blob of a client; removing the session clears it. -/
def inflightWrite (client : String) : PersistOp → Option (Option Bytes)
  | .putInflight c blob => if c = client then some (some blob) else none
  | .removeSession c => if c = client then some none else none
  | _ => none

/-- Writes of the retained message of a topic. -/
def retainedWrite (topic : String) : PersistOp → Option (Option Message)
  | .putRetained t payload qos => if t = topic then some (some ⟨t, payload, qos, true⟩) else none
  | _ => none

theorem clean_of_client {op : PersistOp} (hclean : ∀ c ∈ op.client?, CleanId c) : op.Clean := by
  cases op with
  | removeSession c => exact hclean c rfl
  | putSubscription c raw qos => exact hclean c rfl
  | removeSubscription c raw => exact hclean c rfl
  | _ => trivial

/-! ## The rows as registers -/

theorem expiryRow_eq (op : PersistOp) (client : String) (row : Option Nat) :
    op.expiryRow client row = (op.sessionWrite client).getD row := by
  cases op with
  | putSession c expirySecs =>
      simp only [expiryRow, sessionWrite]
      split <;> rfl
  | removeSession c =>
      simp only [expiryRow, sessionWrite]
      split <;> rfl
  | _ => rfl

/-- A granted level is stored as its byte. -/
theorem subscriptionRow_eq (op : PersistOp) (client raw : String) (row : Option Bytes) :
    op.subscriptionRow client raw row =
      ((op.subscriptionWrite client raw).map (·.bind fun qos => some [qos.toU8])).getD row := by
  cases op with
  | putSubscription c r qos =>
      simp only [subscriptionRow, subscriptionWrite]
      split <;> rfl
  | removeSubscription c r =>
      simp only [subscriptionRow, subscriptionWrite]
      split <;> rfl
  | removeSession c =>
      simp only [subscriptionRow, subscriptionWrite]
      split <;> rfl
  | _ => rfl

/-- An empty blob clears the row. -/
theorem inflightRow_eq (op : PersistOp) (client : String) (row : Option Bytes) :
    op.inflightRow client row =
      ((op.inflightWrite client).map
        (·.bind fun blob => if blob = [] then none else some blob)).getD row := by
  cases op with
  | putInflight c blob =>
      simp only [inflightRow, inflightWrite]
      split
      · split <;> simp_all
      · rfl
  | removeSession c =>
      simp only [inflightRow, inflightWrite]
      split <;> rfl
  | _ => rfl

/-- A message without payload clears the row. -/
theorem retainedRow_eq (op : PersistOp) (topic : String) (row : Option Bytes) :
    (match op.retained? with
      | some m => m.replaces topic Message.row row
      | none => row) =
      ((op.retainedWrite topic).map
        (·.bind fun m => if m.payload = [] then none else some m.row)).getD row := by
  cases op with
  | putRetained t payload qos =>
      simp only [retained?, Message.replaces, retainedWrite]
      split <;> rfl
  | _ => rfl

end PersistOp

namespace Storage

variable {ops : List PersistOp} (hclean : ∀ op ∈ ops, ∀ c ∈ op.client?, CleanId c)

theorem expiry_foldl (ops : List PersistOp) (client : String) :
    ((ops.foldl applyPersistOp empty).record client).expiry =
      LastWrite.value (PersistOp.sessionWrite client) ops := by
  refine LastWrite.foldl_eq_value (fun st => (record st client).expiry) ?_ ?_
  · intro op _ st
    exact (st.sessions_applyPersistOp op client).trans (op.expiryRow_eq client _)
  · simp [record, empty]

include hclean in
theorem subs_foldl {client : String} (hclient : CleanId client) (raw : String) :
    ((ops.foldl applyPersistOp empty).record client).subs raw =
      (LastWrite.value (PersistOp.subscriptionWrite client raw) ops).map fun qos =>
        [qos.toU8] := by
  rw [Option.map_eq_bind, ← LastWrite.value_bind]
  refine LastWrite.foldl_eq_value (fun st => (record st client).subs raw) ?_ ?_
  · intro op hop st
    have hrow := st.subscriptions_applyPersistOp (PersistOp.clean_of_client (hclean op hop))
      hclient raw
    exact hrow.trans (op.subscriptionRow_eq client raw _)
  · simp [record, empty]

theorem inflight_foldl (ops : List PersistOp) (client : String) :
    ((ops.foldl applyPersistOp empty).record client).inflight =
      (LastWrite.value (PersistOp.inflightWrite client) ops).filter (· ≠ []) := by
  have hfilter : ∀ blob : Option Bytes, blob.filter (· ≠ []) =
      blob.bind fun blob => if blob = [] then none else some blob := by
    intro blob
    cases blob with
    | none => rfl
    | some blob => by_cases hblob : blob = [] <;> simp [hblob]
  rw [hfilter, ← LastWrite.value_bind]
  refine LastWrite.foldl_eq_value (fun st => (record st client).inflight) ?_ ?_
  · intro op _ st
    exact (st.inflight_applyPersistOp op client).trans (op.inflightRow_eq client _)
  · simp [record, empty]

/-- The row of a topic is that of the message last put, unless that cleared it. -/
theorem rowOf_foldl (ops : List PersistOp) (topic : String) :
    RowOf topic ((LastWrite.value (PersistOp.retainedWrite topic) ops).filter (·.payload ≠ []))
      (ops.foldl applyPersistOp empty).retained[topic]? := by
  constructor
  · intro m hm
    rw [Option.mem_def, Option.filter_eq_some_iff] at hm
    obtain ⟨op, -, hop⟩ := LastWrite.exists_of_value hm.1
    cases op with
    | putRetained t payload qos =>
        simp only [PersistOp.retainedWrite] at hop
        split at hop
        next htopic =>
          cases hop
          exact ⟨htopic, rfl, of_decide_eq_true hm.2⟩
        next => cases hop
    | _ => cases hop
  · have hfilter : ∀ m : Option Message, (m.filter (·.payload ≠ [])).map Message.row =
        m.bind fun m => if m.payload = [] then none else some m.row := by
      intro m
      cases m with
      | none => rfl
      | some m => by_cases hpayload : m.payload = [] <;> simp [hpayload]
    rw [hfilter, ← LastWrite.value_bind]
    refine LastWrite.foldl_eq_value (fun st : Storage => st.retained[topic]?) ?_ ?_
    · intro op _ st
      exact (st.retained_applyPersistOp op topic).trans (op.retainedRow_eq topic _)
    · simp [empty]

/-! ## What is loaded -/

/-- Loading finds the blob of each client. -/
theorem lookup_loadInflight (st : Storage) (client : String) :
    st.loadInflight.lookup client = (st.record client).inflight := by
  have hvalue : st.loadInflight.lookup client = LastWrite.value
      (fun row : String × Bytes => if row.1 = client then some (some row.2) else none)
      st.inflight.toList := by
    refine LastWrite.foldl_eq_value (fun blobs : AssocMap String Bytes => blobs.lookup client) ?_ rfl
    intro row _ blobs
    rw [AssocMap.lookup_insert]
    by_cases hclient : row.1 = client
    · simp [hclient]
    · simp [hclient, Ne.symm hclient]
  have hwrites : st.inflight.toList.filterMap
      (fun row => if row.1 = client then some (some row.2) else none) =
        (st.inflight.toList.filter fun row => row.1 = client).map fun row => some row.2 := by
    rw [← List.filterMap_eq_map, List.filterMap_filter]
    simp
  rw [hvalue, LastWrite.value, hwrites, Table.filter_key_toList, record]
  cases st.inflight[client]? <;> rfl

/-- A client is loaded once. -/
theorem nodup_loadSessions (st : Storage) :
    (st.loadSessions.map PersistedSession.clientId).Nodup := by
  have hkeys : st.loadSessions.map PersistedSession.clientId = st.sessions.toList.map Prod.fst := by
    simp [loadSessions, Function.comp_def]
  rw [hkeys]
  exact List.pairwise_map.mpr ((Table.pairwise_toList st.sessions).imp fun hlt => ne_of_lt hlt)

/-- A filter is loaded once for a client, its keys being different. -/
theorem nodup_subscriptions {st : Storage} {ps : PersistedSession} (hps : ps ∈ st.loadSessions) :
    (ps.subscriptions.map Prod.fst).Nodup := by
  have hpair : st.loadSubscriptions.Pairwise fun a b => a.1 = b.1 → a.2.1 ≠ b.2.1 := by
    refine List.Pairwise.filterMap _ ?_ (Table.pairwise_toList st.subscriptions)
    intro row row' hlt sub hsub sub' hsub' hclient hraw
    obtain ⟨key, hkey, rfl⟩ := Option.map_eq_some_iff.mp hsub
    obtain ⟨key', hkey', rfl⟩ := Option.map_eq_some_iff.mp hsub'
    dsimp only at hclient hraw
    have hrow := (Text.splitOnce_eq_some_iff.mp hkey).2
    have hrow' := (Text.splitOnce_eq_some_iff.mp hkey').2
    rw [hclient, hraw, ← hrow'] at hrow
    exact ne_of_lt hlt hrow
  rw [(mem_loadSessions.mp hps).2, List.map_map, List.Nodup, List.pairwise_map]
  refine (hpair.filter _).imp_of_mem ?_
  intro a b ha hb hne
  have hclient := of_decide_eq_true (List.mem_filter.mp ha).2
  have hclient' := of_decide_eq_true (List.mem_filter.mp hb).2
  exact hne (hclient.trans hclient'.symm)

include hclean in
/-- The identifiers of loaded sessions are those of the writes. -/
theorem cleanId_of_mem_loadSessions {ps : PersistedSession}
    (hps : ps ∈ (ops.foldl applyPersistOp empty).loadSessions) : CleanId ps.clientId := by
  have hexpiry := (mem_loadSessions.mp hps).1
  rw [expiry_foldl] at hexpiry
  obtain ⟨op, hop, hwrite⟩ := LastWrite.exists_of_value hexpiry
  refine hclean op hop ps.clientId ?_
  cases op with
  | putSession c expirySecs =>
      simp only [PersistOp.sessionWrite] at hwrite
      split at hwrite
      next heq => exact congrArg some heq
      next => cases hwrite
  | removeSession c =>
      simp only [PersistOp.sessionWrite] at hwrite
      split at hwrite <;> cases hwrite
  | _ => cases hwrite

/-- Loading a store after any writes: every session, subscription, in-flight blob and
retained message is the one last written. -/
theorem load_eq_lastWrites
    (ops : List PersistOp) (hclean : ∀ op ∈ ops, ∀ c ∈ op.client?, CleanId c) :
    let st := ops.foldl applyPersistOp empty
    (st.loadSessions.map PersistedSession.clientId).Nodup ∧
      (∀ client secs,
        (∃ ps ∈ st.loadSessions, ps.clientId = client ∧ ps.expirySecs = secs) ↔
          LastWrite.value (PersistOp.sessionWrite client) ops = some secs) ∧
      (∀ ps ∈ st.loadSessions, (ps.subscriptions.map Prod.fst).Nodup ∧
        ∀ raw qos, (raw, qos) ∈ ps.subscriptions ↔
          LastWrite.value (PersistOp.subscriptionWrite ps.clientId raw) ops = some qos) ∧
      (∀ client, st.loadInflight.lookup client =
        (LastWrite.value (PersistOp.inflightWrite client) ops).filter (· ≠ [])) ∧
      ∀ topic, st.loadRetained.filter (·.topic = topic) =
        ((LastWrite.value (PersistOp.retainedWrite topic) ops).filter (·.payload ≠ [])).toList := by
  intro st
  refine ⟨nodup_loadSessions st, ?_, ?_, ?_, ?_⟩
  · intro client secs
    rw [← expiry_foldl]
    constructor
    · rintro ⟨ps, hps, rfl, rfl⟩
      exact (mem_loadSessions.mp hps).1
    · intro hexpiry
      let subs := (st.loadSubscriptions.filter fun sub => sub.1 = client).map Prod.snd
      exact ⟨⟨client, secs, subs⟩, mem_loadSessions.mpr ⟨hexpiry, rfl⟩, rfl, rfl⟩
  · intro ps hps
    refine ⟨nodup_subscriptions hps, fun raw qos => ?_⟩
    have hclient := cleanId_of_mem_loadSessions hclean hps
    rw [mem_subscriptions hps hclient, subs_foldl hclean hclient]
    cases LastWrite.value (PersistOp.subscriptionWrite ps.clientId raw) ops with
    | none => simp
    | some granted => simp
  · intro client
    rw [lookup_loadInflight, inflight_foldl]
  · intro topic
    exact filter_loadRetained (rowOf_foldl ops topic)

def sampleWrites : List PersistOp :=
  [.putSession "a" 60, .putSubscription "a" "t" .atLeastOnce, .putSession "ab" 30,
    .putInflight "ab" [1], .removeSession "a", .putSession "a" 10]

theorem load_sampleWrites :
    let st := sampleWrites.foldl applyPersistOp empty
    (∃ ps ∈ st.loadSessions, ps.clientId = "a" ∧ ps.expirySecs = 10) ∧
      st.loadInflight.lookup "ab" = some [1] := by
  obtain ⟨-, hsessions, -, hinflight, -⟩ := load_eq_lastWrites sampleWrites (by decide)
  exact ⟨(hsessions "a" 10).mpr (by decide), (hinflight "ab").trans (by decide)⟩

end Storage

end Relay
