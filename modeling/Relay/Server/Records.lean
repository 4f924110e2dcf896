import Relay.Server.Snapshots

/-! # The durable record of a client

What the store holds about one client: its expiry interval, its subscription
rows and its in-flight row. Client identifiers do not contain the separator, so
the subscription keys of different clients are different and every queued write
changes the record of one client only.
-/

namespace Relay

@[ext] structure ClientRecord where
  expiry : Option Nat
  subs : String → Option Bytes
  inflight : Option Bytes

def ClientRecord.empty : ClientRecord := ⟨none, fun _ => none, none⟩

/-- A client identifier that can be told apart from the filter in a key. -/
def CleanId (client : String) : Prop := sep ∉ client.toList

instance (client : String) : Decidable (CleanId client) :=
  inferInstanceAs (Decidable (sep ∉ client.toList))

/-! ## Subscription keys -/

theorem splitOnce_subscriptionKey {client : String} (hclient : CleanId client) (raw : String) :
    Text.splitOnce sep (subscriptionKey client raw) = some (client, raw) :=
  Text.splitOnce_eq_some_iff.mpr ⟨hclient, rfl⟩

theorem subscriptionKey_inj {client client' raw raw' : String} (hclient : CleanId client)
    (hclient' : CleanId client') :
    subscriptionKey client raw = subscriptionKey client' raw' ↔
      client = client' ∧ raw = raw' := by
  constructor
  · intro heq
    have hsplit := congrArg (Text.splitOnce sep) heq
    rw [splitOnce_subscriptionKey hclient, splitOnce_subscriptionKey hclient'] at hsplit
    exact Prod.mk.inj (Option.some.inj hsplit)
  · rintro ⟨rfl, rfl⟩
    rfl

theorem startsWith_subscriptionKey {client client' : String} (hclient : CleanId client)
    (hclient' : CleanId client') (raw : String) :
    Text.startsWith (client' ++ String.singleton sep) (subscriptionKey client raw) = true ↔
      client' = client := by
  rw [Text.startsWith_iff]
  constructor
  · rintro ⟨rest, hrest⟩
    exact ((subscriptionKey_inj hclient hclient').mp hrest).1.symm
  · rintro rfl
    exact ⟨raw, rfl⟩

/-! ## Rows under a queued write -/

namespace PersistOp

def expiryRow (client : String) (row : Option Nat) : PersistOp → Option Nat
  | .putSession c expirySecs => if c = client then some expirySecs else row
  | .removeSession c => if c = client then none else row
  | _ => row

def subscriptionRow (client raw : String) (row : Option Bytes) : PersistOp → Option Bytes
  | .putSubscription c r qos => if c = client ∧ r = raw then some [qos.toU8] else row
  | .removeSubscription c r => if c = client ∧ r = raw then none else row
  | .removeSession c => if c = client then none else row
  | _ => row

def onRecord (client : String) (r : ClientRecord) (op : PersistOp) : ClientRecord where
  expiry := op.expiryRow client r.expiry
  subs raw := op.subscriptionRow client raw (r.subs raw)
  inflight := op.inflightRow client r.inflight

/-- The write names subscription keys of a clean client only. -/
def Clean : PersistOp → Prop
  | .removeSession c => CleanId c
  | .putSubscription c _ _ => CleanId c
  | .removeSubscription c _ => CleanId c
  | _ => True

end PersistOp

namespace Storage

def record (st : Storage) (client : String) : ClientRecord where
  expiry := st.sessions[client]?
  subs raw := st.subscriptions[subscriptionKey client raw]?
  inflight := st.inflight[client]?

theorem sessions_applyPersistOp (st : Storage) (op : PersistOp) (client : String) :
    (st.applyPersistOp op).sessions[client]? = op.expiryRow client st.sessions[client]? := by
  cases op with
  | putSession c expirySecs =>
      simp [applyPersistOp, putSession, PersistOp.expiryRow, Std.TreeMap.getElem?_insert]
  | removeSession c =>
      simp [applyPersistOp, removeSession, PersistOp.expiryRow, Std.TreeMap.getElem?_erase]
  | putInflight c blob =>
      simp only [applyPersistOp, putInflight]
      split <;> rfl
  | putRetained topic payload qos =>
      simp only [applyPersistOp, putRetained]
      split <;> rfl
  | putSubscription _ _ _ => rfl
  | removeSubscription _ _ => rfl
  | appendDeadLetter _ => rfl
  | appendEvent _ _ => rfl
  | flush _ => rfl

/-- Removing a session erases exactly the subscription rows of its client. -/
theorem subscriptions_removeSession (st : Storage) {client c : String} (hclient : CleanId client)
    (hc : CleanId c) (raw : String) :
    (st.removeSession c).subscriptions[subscriptionKey client raw]? =
      if c = client then none else st.subscriptions[subscriptionKey client raw]? := by
  simp only [removeSession, Table.getElem?_eraseAll, List.mem_filter,
    startsWith_subscriptionKey hclient hc]
  by_cases heq : c = client
  · cases hrow : st.subscriptions[subscriptionKey client raw]? with
    | none => simp [heq]
    | some v =>
        have hkey : subscriptionKey client raw ∈ st.subscriptions.toList.map Prod.fst :=
          List.mem_map_of_mem (Std.TreeMap.mem_toList_iff_getElem?_eq_some.mpr hrow)
        rw [if_pos heq, if_pos ⟨hkey, heq⟩]
  · simp [heq]

theorem subscriptions_applyPersistOp (st : Storage) {op : PersistOp} (hop : op.Clean)
    {client : String} (hclient : CleanId client) (raw : String) :
    (st.applyPersistOp op).subscriptions[subscriptionKey client raw]? =
      op.subscriptionRow client raw st.subscriptions[subscriptionKey client raw]? := by
  cases op with
  | putSubscription c r qos =>
      simp [applyPersistOp, putSubscription, PersistOp.subscriptionRow,
        Std.TreeMap.getElem?_insert, subscriptionKey_inj hop hclient]
  | removeSubscription c r =>
      simp [applyPersistOp, removeSubscription, PersistOp.subscriptionRow,
        Std.TreeMap.getElem?_erase, subscriptionKey_inj hop hclient]
  | removeSession c => exact subscriptions_removeSession st hclient hop raw
  | putInflight c blob =>
      simp only [applyPersistOp, putInflight]
      split <;> rfl
  | putRetained topic payload qos =>
      simp only [applyPersistOp, putRetained]
      split <;> rfl
  | putSession _ _ => rfl
  | appendDeadLetter _ => rfl
  | appendEvent _ _ => rfl
  | flush _ => rfl

theorem record_applyPersistOp (st : Storage) {op : PersistOp} (hop : op.Clean) {client : String}
    (hclient : CleanId client) :
    (st.applyPersistOp op).record client = op.onRecord client (st.record client) := by
  ext1
  · exact st.sessions_applyPersistOp op client
  · funext raw
    exact st.subscriptions_applyPersistOp hop hclient raw
  · exact st.inflight_applyPersistOp op client

theorem aside_applyPersistOp (st : Storage) {op : PersistOp} (hop : op.Aside) :
    (st.applyPersistOp op).sessions = st.sessions ∧
      (st.applyPersistOp op).subscriptions = st.subscriptions := by
  cases op with
  | putInflight c blob =>
      simp only [applyPersistOp, putInflight]
      split <;> exact ⟨rfl, rfl⟩
  | putRetained topic payload qos =>
      simp only [applyPersistOp, putRetained]
      split <;> exact ⟨rfl, rfl⟩
  | putSession _ _ => exact hop.elim
  | removeSession _ => exact hop.elim
  | putSubscription _ _ _ => exact hop.elim
  | removeSubscription _ _ => exact hop.elim
  | appendDeadLetter _ => exact ⟨rfl, rfl⟩
  | appendEvent _ _ => exact ⟨rfl, rfl⟩
  | flush _ => exact ⟨rfl, rfl⟩

end Storage

/-! ## The record once the queue is drained -/

namespace Hub

/-- The record of a client in the store that the queue leads to. -/
def record (h : Hub) (client : String) : ClientRecord :=
  match h.disk with
  | some d => d.settled.record client
  | none => .empty

theorem inflight_record (h : Hub) (client : String) :
    (h.record client).inflight = h.inflightRow client := by
  unfold record inflightRow
  cases h.disk <;> rfl

theorem record_congr {h h' : Hub} (hdisk : h'.disk = h.disk) (client : String) :
    h'.record client = h.record client := by
  rw [record, hdisk, record]

theorem record_enqueue {h : Hub} (hdisk : h.disk.isSome) {op : PersistOp} (hop : op.Clean)
    {client : String} (hclient : CleanId client) :
    (h.enqueue op).record client = op.onRecord client (h.record client) := by
  obtain ⟨d, hd⟩ := Option.isSome_iff_exists.mp hdisk
  simp only [record, enqueue, hd, Option.map_some, Disk.settled_enqueue]
  exact Storage.record_applyPersistOp _ hop hclient

theorem record_work {h h' : Hub} (hwork : h.work = some h') (client : String) :
    h'.record client = h.record client := by
  obtain ⟨d, d', hd, hd', rfl⟩ := exists_of_work hwork
  simp only [record, hd, Disk.settled_work hd']

/-- Writes aside leave expiry intervals and subscription rows as they are. -/
theorem QueuesAll.record_aside {h h' : Hub} (hqueues : QueuesAll PersistOp.Aside h h')
    (client : String) :
    (h'.record client).expiry = (h.record client).expiry ∧
      (h'.record client).subs = (h.record client).subs := by
  obtain ⟨ops, hops, haside⟩ := hqueues
  cases hd : h.disk with
  | none => simp [record, hops.disk, hd]
  | some d =>
      have hfold : ∀ st : Storage, (ops.foldl Storage.applyPersistOp st).sessions = st.sessions ∧
          (ops.foldl Storage.applyPersistOp st).subscriptions = st.subscriptions := by
        clear hops
        induction ops with
        | nil => exact fun st => ⟨rfl, rfl⟩
        | cons op ops ih =>
            intro st
            obtain ⟨hsessions, hsubs⟩ := st.aside_applyPersistOp (haside op List.mem_cons_self)
            obtain ⟨hsessions', hsubs'⟩ := ih (fun op' hop' => haside op'
              (List.mem_cons_of_mem _ hop')) (st.applyPersistOp op)
            exact ⟨hsessions'.trans hsessions, hsubs'.trans hsubs⟩
      obtain ⟨hsessions, hsubs⟩ := hfold d.settled
      simp only [record, hops.disk, hd, Option.map_some, Disk.settled, List.foldl_append,
        Storage.record] at hsessions hsubs ⊢
      rw [hsessions, hsubs]
      exact ⟨rfl, rfl⟩

end Hub

end Relay
