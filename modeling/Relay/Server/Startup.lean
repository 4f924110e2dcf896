import Relay.Server.SessionTable

/-! # What startup rebuilds

`Hub::new` walks the session rows in key order and gives each client the next
handle: the k-th row becomes the session with handle k + 1, offline, with the
queue its in-flight row decodes to and the subscriptions its rows parse to.
-/

namespace Relay

/-! ## Subscriptions of one persisted session -/

/-- The QoS a list of stored subscriptions leaves at a group and filter: that of
the last one that parses to it, else the one before. -/
def restoredQos (key : Option String × String) (before : Option QoS)
    (subs : List (String × QoS)) : Option QoS :=
  subs.foldl (fun qos sub => if routeKey sub.1 = some key then some sub.2 else qos) before

def PersistedSession.held (ps : PersistedSession) (key : Option String × String) : Option QoS :=
  restoredQos key none ps.subscriptions

theorem restoredQos_ne_none_iff {key : Option String × String} {before : Option QoS}
    {subs : List (String × QoS)} :
    restoredQos key before subs ≠ none ↔
      before ≠ none ∨ ∃ sub ∈ subs, routeKey sub.1 = some key := by
  induction subs generalizing before with
  | nil => simp [restoredQos]
  | cons sub rest ih =>
      unfold restoredQos at ih ⊢
      rw [List.foldl_cons, ih]
      by_cases hkey : routeKey sub.1 = some key
      · simp [hkey]
      · simp [hkey]

namespace Hub

/-- A row that does not parse installs nothing. -/
theorem granted_restoreSubscription (id : ClientId) (router : Router) (sub : String × QoS) :
    (restoreSubscription id router sub).granted =
      match routeKey sub.1 with
      | some key => Function.update router.granted ⟨id, key.1, key.2⟩ (some sub.2)
      | none => router.granted := by
  unfold restoreSubscription routeKey
  cases SharedSubscription.parse sub.1 with
  | some shared => exact router.granted_subscribeShared id shared.filter sub.2 shared.group
  | none =>
      cases TopicFilter.parse sub.1 with
      | some filter => exact router.granted_subscribe id filter sub.2
      | none => rfl

theorem granted_restoreSubscriptions (id : ClientId) (subs : List (String × QoS))
    (router : Router) (i : ClientId) (key : Option String × String) :
    (subs.foldl (restoreSubscription id) router).granted ⟨i, key.1, key.2⟩ =
      if i = id then restoredQos key (router.granted ⟨i, key.1, key.2⟩) subs
      else router.granted ⟨i, key.1, key.2⟩ := by
  induction subs generalizing router with
  | nil => exact (ite_self _).symm
  | cons sub rest ih =>
      have hone : (restoreSubscription id router sub).granted ⟨i, key.1, key.2⟩ =
          if i = id ∧ routeKey sub.1 = some key then some sub.2
          else router.granted ⟨i, key.1, key.2⟩ := by
        rw [granted_restoreSubscription]
        cases hkey : routeKey sub.1 with
        | none => simp
        | some k =>
            obtain ⟨group, filter⟩ := k
            obtain ⟨group', filter'⟩ := key
            simp only [Function.update_apply, SubscriptionKey.mk.injEq, Option.some.injEq,
              Prod.mk.injEq, eq_comm]
      rw [List.foldl_cons, ih, hone]
      by_cases hi : i = id
      · simp [hi, restoredQos]
      · simp [hi]

/-! ## The walk over the session rows -/

/-- The persisted session behind a handle, handles being given out from 1. -/
def slot (done : List PersistedSession) : ClientId → Option PersistedSession
  | 0 => none
  | k + 1 => done[k]?

theorem mem_of_slot {done : List PersistedSession} {i : ClientId} {ps : PersistedSession}
    (hslot : slot done i = some ps) : ps ∈ done := by
  cases i with
  | zero => cases hslot
  | succ k => exact List.mem_of_getElem? hslot

theorem slot_append (done : List PersistedSession) (ps : PersistedSession) (i : ClientId) :
    slot (done ++ [ps]) i = if i = done.length + 1 then some ps else slot done i := by
  cases i with
  | zero => simp [slot]
  | succ k =>
      simp only [slot, List.getElem?_append, List.getElem?_singleton]
      by_cases hk : k = done.length
      · simp [hk]
      · by_cases hlt : k < done.length
        · simp [hk, hlt]
        · have hsub : k - done.length ≠ 0 := by omega
          simp [hk, hlt, hsub]

/-- The state of the walk after these sessions. -/
structure Rebuilt (st : Storage) (retry : RetryConfig) (now : Nat) (done : List PersistedSession)
    (nextRaw : Nat) (router : Router) (byId : AssocMap ClientId Session) : Prop where
  nextRaw : nextRaw = done.length + 1
  byId : ∀ i, byId.lookup i = (slot done i).map (restoreSession st retry now)
  granted : ∀ i key, router.granted ⟨i, key.1, key.2⟩ = (slot done i).bind (·.held key)

variable {st : Storage} {retry : RetryConfig} {now : Nat}

theorem Rebuilt.loadSession {done : List PersistedSession} {l : Loading}
    (hl : Rebuilt st retry now done l.nextRaw l.router l.sessions.byId) (ps : PersistedSession) :
    let l' := loadSession st retry now l ps
    Rebuilt st retry now (done ++ [ps]) l'.nextRaw l'.router l'.sessions.byId where
  nextRaw := by
    rw [List.length_append, List.length_singleton, ← hl.nextRaw]
    rfl
  byId i := by
    simp only [Hub.loadSession, AssocMap.lookup_insert, slot_append, hl.nextRaw, hl.byId]
    split <;> rfl
  granted i key := by
    simp only [Hub.loadSession, granted_restoreSubscriptions, slot_append, hl.nextRaw, hl.granted]
    split
    next hi =>
      -- the handle is new, so nothing is granted to it yet
      have hnew : slot done i = none := by
        rw [hi]
        exact List.getElem?_eq_none (Nat.le_refl _)
      rw [hnew]
      rfl
    next => rfl

theorem Rebuilt.foldl (sessions done : List PersistedSession) {l : Loading}
    (hl : Rebuilt st retry now done l.nextRaw l.router l.sessions.byId) :
    let l' := sessions.foldl (Hub.loadSession st retry now) l
    Rebuilt st retry now (done ++ sessions) l'.nextRaw l'.router l'.sessions.byId := by
  induction sessions generalizing done l with
  | nil =>
      rw [List.append_nil]
      exact hl
  | cons ps rest ih =>
      have hrest := ih (done ++ [ps]) (hl.loadSession ps)
      rwa [List.append_assoc] at hrest

/-- A started hub is the walk over all session rows. -/
theorem rebuilt_new (st : Storage) (retry : RetryConfig) (eventLogMax now : Nat) :
    let h := new (some st) retry eventLogMax now
    Rebuilt st retry now st.loadSessions h.nextId h.router h.sessions.byId := by
  refine Rebuilt.foldl st.loadSessions [] ⟨rfl, fun i => ?_, fun i key => ?_⟩
  · cases i <;> rfl
  · have hnone := congrFun Router.granted_new ⟨i, key.1, key.2⟩
    cases i <;> exact hnone

/-- A session is loaded offline, at generation 0, with the interval of its row. -/
theorem holder_restoreSession (st : Storage) (retry : RetryConfig) (now : Nat)
    (ps : PersistedSession) :
    (restoreSession st retry now ps).holder = ⟨ps.clientId, ps.expirySecs, 0, false⟩ := by
  unfold restoreSession
  dsimp only
  split <;> rfl

/-- Startup gives handles out in the order of the rows. -/
theorem holder_new (st : Storage) (retry : RetryConfig) (eventLogMax now : Nat) (id : ClientId) :
    (new (some st) retry eventLogMax now).sessions.holder id =
      (slot st.loadSessions id).map fun ps => ⟨ps.clientId, ps.expirySecs, 0, false⟩ := by
  rw [SessionTable.holder, (rebuilt_new st retry eventLogMax now).byId, Option.map_map]
  congr 1
  funext ps
  exact holder_restoreSession st retry now ps

end Hub

theorem Storage.sessions_of_mem {st : Storage} {ps : PersistedSession}
    (hps : ps ∈ st.loadSessions) : st.sessions[ps.clientId]? = some ps.expirySecs := by
  obtain ⟨row, hrow, rfl⟩ := List.mem_map.mp hps
  exact Std.TreeMap.mem_toList_iff_getElem?_eq_some.mp hrow

end Relay
