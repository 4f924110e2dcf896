import Relay.Core.Message
import Relay.Foundation.AssocMap
import Relay.Foundation.Table
import Relay.Foundation.Text

/-! # The on-disk store

Six ordered tables and the durable writes on them. The hub queues writes; one
worker applies them in order, each as its own transaction. Writes are assumed to
succeed, so a store is just the contents of its tables.
-/

namespace Relay

/-- The tables of the store. A session row holds the expiry interval; the values
of the others are bytes. -/
structure Storage where
  retained : Table String Bytes
  sessions : Table String Nat
  subscriptions : Table String Bytes
  inflight : Table String Bytes
  deadLetters : Table Nat Bytes
  events : Table Nat Bytes

structure PersistedSession where
  clientId : String
  expirySecs : Nat
  subscriptions : List (String × QoS)

/-- Sequence numbers and offsets are `u64` and wrap. -/
def u64Bound : Nat := 2 ^ 64

/-- Separator between client and filter in a subscription key. -/
def sep : Char := Char.ofNat 0

def subscriptionKey (clientId raw : String) : String := clientId ++ String.singleton sep ++ raw

namespace Storage

def empty : Storage := ⟨∅, ∅, ∅, ∅, ∅, ∅⟩

def putRetained (st : Storage) (topic : String) (payload : Bytes) (qos : QoS) : Storage :=
  if payload = [] then { st with retained := st.retained.erase topic }
  else { st with retained := st.retained.insert topic (qos.toU8 :: payload) }

def loadRetained (st : Storage) : List Message :=
  st.retained.toList.filterMap fun row =>
    match row.2 with
    | [] => none
    | qos :: payload =>
        some { topic := row.1, payload, qos := (QoS.fromU8 qos).getD .atMostOnce, retain := true }

def putSession (st : Storage) (clientId : String) (expirySecs : Nat) : Storage :=
  { st with sessions := st.sessions.insert clientId expirySecs }

/-- Drop a session with its subscriptions and its in-flight row. -/
def removeSession (st : Storage) (clientId : String) : Storage :=
  let keys := (st.subscriptions.toList.map Prod.fst).filter fun key =>
    Text.startsWith (clientId ++ String.singleton sep) key
  { st with
    sessions := st.sessions.erase clientId
    subscriptions := Table.eraseAll st.subscriptions keys
    inflight := st.inflight.erase clientId }

def putSubscription (st : Storage) (clientId raw : String) (qos : QoS) : Storage :=
  { st with subscriptions := st.subscriptions.insert (subscriptionKey clientId raw) [qos.toU8] }

def removeSubscription (st : Storage) (clientId raw : String) : Storage :=
  { st with subscriptions := st.subscriptions.erase (subscriptionKey clientId raw) }

def putInflight (st : Storage) (clientId : String) (blob : Bytes) : Storage :=
  if blob = [] then { st with inflight := st.inflight.erase clientId }
  else { st with inflight := st.inflight.insert clientId blob }

def loadInflight (st : Storage) : AssocMap String Bytes :=
  st.inflight.toList.foldl (fun blobs row => blobs.insert row.1 row.2) ∅

def nextKey (t : Table Nat Bytes) : Nat :=
  match Table.last? t with
  | some row => (row.1 + 1) % u64Bound
  | none => 0

def appendDeadLetter (st : Storage) (blob : Bytes) : Storage :=
  { st with deadLetters := st.deadLetters.insert (nextKey st.deadLetters) blob }

/-- The pruning loop: remove the oldest row while there are too many. The fuel
is the number of rows. -/
def prune (retention : Nat) : Nat → Table Nat Bytes → Table Nat Bytes
  | 0, t => t
  | fuel + 1, t =>
      if retention < t.size then
        match Table.first? t with
        | some row => prune retention fuel (t.erase row.1)
        | none => t
      else t

/-- Append at the next offset, then prune; retention 0 keeps everything. -/
def appendEvent (st : Storage) (blob : Bytes) (retention : Nat) : Storage :=
  let events := st.events.insert (nextKey st.events) blob
  { st with events := if 0 < retention then prune retention events.size events else events }

def loadEvents (st : Storage) (start : Nat) : List (Nat × Bytes) := Table.range st.events start

/-- The subscription rows as client, filter string and granted QoS. -/
def loadSubscriptions (st : Storage) : List (String × String × QoS) :=
  st.subscriptions.toList.filterMap fun row =>
    (Text.splitOnce sep row.1).map fun key =>
      (key.1, key.2, (row.2.head?.bind QoS.fromU8).getD .atMostOnce)

/-- Every durable session with its own subscriptions. -/
def loadSessions (st : Storage) : List PersistedSession :=
  st.sessions.toList.map fun row =>
    { clientId := row.1
      expirySecs := row.2
      subscriptions := (st.loadSubscriptions.filter fun sub => sub.1 = row.1).map Prod.snd }

end Storage

/-! ## The persistence worker -/

/-- A queued durable write. The number in `flush` stands for the channel on
which the worker acknowledges it. -/
inductive PersistOp where
  | putSession (clientId : String) (expirySecs : Nat)
  | removeSession (clientId : String)
  | putSubscription (clientId raw : String) (qos : QoS)
  | removeSubscription (clientId raw : String)
  | putInflight (clientId : String) (blob : Bytes)
  | putRetained (topic : String) (payload : Bytes) (qos : QoS)
  | appendDeadLetter (blob : Bytes)
  | appendEvent (blob : Bytes) (retention : Nat)
  | flush (ack : Nat)
deriving DecidableEq

/-- The write is not about sessions or subscriptions. -/
def PersistOp.Aside : PersistOp → Prop
  | .putSession _ _ => False
  | .removeSession _ => False
  | .putSubscription _ _ _ => False
  | .removeSubscription _ _ => False
  | _ => True

instance : DecidablePred PersistOp.Aside
  | .putSession _ _ | .removeSession _ | .putSubscription _ _ _ | .removeSubscription _ _ =>
      isFalse id
  | .putInflight _ _ | .putRetained _ _ _ | .appendDeadLetter _ | .appendEvent _ _ | .flush _ =>
      isTrue trivial

/-- `apply_persist_op` on the tables. -/
def Storage.applyPersistOp (st : Storage) : PersistOp → Storage
  | .putSession clientId expirySecs => st.putSession clientId expirySecs
  | .removeSession clientId => st.removeSession clientId
  | .putSubscription clientId raw qos => st.putSubscription clientId raw qos
  | .removeSubscription clientId raw => st.removeSubscription clientId raw
  | .putInflight clientId blob => st.putInflight clientId blob
  | .putRetained topic payload qos => st.putRetained topic payload qos
  | .appendDeadLetter blob => st.appendDeadLetter blob
  | .appendEvent blob retention => st.appendEvent blob retention
  | .flush _ => st

/-- The store with the worker's queue and the flushes acknowledged so far. -/
structure Disk where
  storage : Storage
  queue : List PersistOp
  acks : List Nat

namespace Disk

def enqueue (d : Disk) (op : PersistOp) : Disk := { d with queue := d.queue ++ [op] }

/-- One round of the worker loop; `none` while the queue is empty. -/
def work (d : Disk) : Option Disk :=
  match d.queue with
  | [] => none
  | op :: rest =>
      some
        { storage := d.storage.applyPersistOp op
          queue := rest
          acks := match op with
            | .flush ack => d.acks ++ [ack]
            | _ => d.acks }

def settled (d : Disk) : Storage := d.queue.foldl Storage.applyPersistOp d.storage

/-- A queued write comes after all others. -/
@[simp] theorem settled_enqueue (d : Disk) (op : PersistOp) :
    (d.enqueue op).settled = d.settled.applyPersistOp op := by
  simp [settled, enqueue, List.foldl_append]

/-- The worker changes when a write is applied, not what is written in the end. -/
theorem settled_work {d d' : Disk} (h : d.work = some d') : d'.settled = d.settled := by
  unfold work at h
  split at h
  · cases h
  next op rest hqueue =>
    cases h
    simp [settled, hqueue]

/-- The store that a crash leaves when the worker has applied so many of the
queued writes. -/
def crashed (d : Disk) (n : Nat) : Storage :=
  (d.queue.take n).foldl Storage.applyPersistOp d.storage

/-- What holds of the store whenever the crash comes. -/
def EachCrash (P : Storage → Prop) (d : Disk) : Prop := ∀ n, P (d.crashed n)

variable {P : Storage → Prop} {d : Disk}

/-- The store without a crash is one of the cases. -/
theorem EachCrash.settled (hcrash : d.EachCrash P) : P d.settled := by
  have h := hcrash d.queue.length
  rwa [crashed, List.take_length] at h

/-- A new write adds one crash point, behind all the others. -/
theorem EachCrash.enqueue (hcrash : d.EachCrash P) {op : PersistOp}
    (hop : P (d.settled.applyPersistOp op)) : (d.enqueue op).EachCrash P := by
  intro n
  by_cases hn : n ≤ d.queue.length
  · have h := hcrash n
    rwa [crashed, ← List.take_append_of_le_length hn] at h
  · have hall : (d.enqueue op).crashed n = (d.enqueue op).settled := by
      rw [crashed, List.take_of_length_le]
      · rfl
      · simp only [Disk.enqueue, List.length_append, List.length_singleton]
        omega
    rw [hall, settled_enqueue]
    exact hop

/-- The worker takes a crash point away. -/
theorem EachCrash.work (hcrash : d.EachCrash P) {d' : Disk} (hwork : d.work = some d') :
    d'.EachCrash P := by
  unfold Disk.work at hwork
  split at hwork
  · cases hwork
  next op rest hqueue =>
    cases hwork
    intro n
    have h := hcrash (n + 1)
    rwa [crashed, hqueue, List.take_succ_cons, List.foldl_cons] at h

/-- Writes that each keep a property keep it whenever the crash comes. -/
theorem EachCrash.append (hcrash : d.EachCrash P) {ops : List PersistOp}
    (hops : ∀ op ∈ ops, ∀ st : Storage, P st → P (st.applyPersistOp op)) :
    EachCrash P { d with queue := d.queue ++ ops } := by
  induction ops generalizing d with
  | nil =>
      rw [List.append_nil]
      exact hcrash
  | cons op rest ih =>
      rw [List.forall_mem_cons] at hops
      have h := ih (hcrash.enqueue (hops.1 _ hcrash.settled)) hops.2
      rwa [Disk.enqueue, List.append_assoc] at h

end Disk

end Relay
