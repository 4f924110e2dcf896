import Relay.Server.Mirror

/-! # Operations that keep the store up to date

Connecting, detaching, expiring, subscribing and unsubscribing change the session
of one client and queue the write about its record. Each of them keeps the store
faithful, a resume under the condition that what it makes durable is blank.
-/

namespace Relay

namespace PersistOp

theorem onRecord_removeSession (client : String) (r : ClientRecord) :
    (removeSession client).onRecord client r = .empty := by
  ext1 <;> simp [onRecord, expiryRow, subscriptionRow, inflightRow, ClientRecord.empty]

theorem onRecord_putSession (client : String) (expirySecs : Nat) (r : ClientRecord) :
    (putSession client expirySecs).onRecord client r = { r with expiry := some expirySecs } := by
  ext1 <;> simp [onRecord, expiryRow, subscriptionRow, inflightRow]

/-- The write that puts or clears the marker of a session. -/
def marker (client : String) (expirySecs : Nat) : PersistOp :=
  if 0 < expirySecs then putSession client expirySecs else removeSession client

theorem about_marker (client : String) (expirySecs : Nat) :
    (marker client expirySecs).About client := by
  unfold marker
  split <;> rfl

/-- Clearing the marker clears the whole record. -/
theorem onRecord_marker (client : String) (expirySecs : Nat) (r : ClientRecord) :
    (marker client expirySecs).onRecord client r =
      if 0 < expirySecs then { r with expiry := some expirySecs } else .empty := by
  unfold marker
  split
  · exact onRecord_putSession client expirySecs r
  · exact onRecord_removeSession client r

/-- The write that puts or clears a subscription row. -/
def subscription (client raw : String) : Option QoS → PersistOp
  | some qos => putSubscription client raw qos
  | none => removeSubscription client raw

theorem about_subscription (client raw : String) (value : Option QoS) :
    (subscription client raw value).About client := by
  cases value <;> rfl

theorem onRecord_subscription (client raw : String) (value : Option QoS) (r : ClientRecord) :
    (subscription client raw value).onRecord client r =
      { r with subs := Function.update r.subs raw (value.map fun qos => [qos.toU8]) } := by
  cases value with
  | some qos =>
      ext1
      · rfl
      · funext raw'
        simp [subscription, onRecord, subscriptionRow, Function.update_apply, eq_comm]
      · rfl
  | none =>
      ext1
      · rfl
      · funext raw'
        simp [subscription, onRecord, subscriptionRow, Function.update_apply, eq_comm]
      · rfl

end PersistOp

namespace Hub

/-! ## Sessions leaving -/

/-- Taking out a session with its subscriptions and its record. -/
theorem Backed.remove {h h' : Hub} (hb : h.Backed) {id : ClientId} {s : Session}
    (hs : h.sessions.byId.lookup id = some s)
    (hunique : ∀ i t, h.sessions.byId.lookup i = some t → (t.clientId = s.clientId ↔ i = id))
    (hlookup : ∀ i, h'.sessions.byId.lookup i =
      if i = id then none else h.sessions.byId.lookup i)
    (hrouter : h'.router = h.router.removeClient id) (hnext : h'.nextId = h.nextId)
    (hdisk : h'.disk = (h.enqueue (.removeSession s.clientId)).disk) :
    h'.Backed ∧ ∀ i t, h'.sessions.byId.lookup i = some t → t.clientId ≠ s.clientId := by
  have habout : (PersistOp.removeSession s.clientId).About s.clientId := rfl
  constructor
  · refine hb.replace (hb.clean id s hs) habout hdisk hlookup hunique (fun _ ht => nomatch ht) ?_ ?_
      (fun _ ht => nomatch ht) fun _ => PersistOp.onRecord_removeSession s.clientId _
    · intro i hi
      funext key
      simp only [held, hrouter, Router.granted_removeClient, hi, if_false]
    · intro key hkey
      rw [hrouter] at hkey
      rw [hnext]
      exact hb.routed key (Router.granted_removeClient_ne_none _ _ hkey).2
  · intro i t ht hclient
    rw [hlookup] at ht
    split at ht
    · cases ht
    next hi => exact hi ((hunique i t ht).mp hclient)

/-- A client has one session. -/
theorem Mirrored.unique {h : Hub} (hm : h.Mirrored) {id : ClientId} {s : Session}
    (hs : h.sessions.byId.lookup id = some s) (i : ClientId) (t : Session)
    (ht : h.sessions.byId.lookup i = some t) : t.clientId = s.clientId ↔ i = id := by
  constructor
  · exact hm.consistent.id_unique ht hs
  · rintro rfl
    rw [hs] at ht
    cases ht
    rfl

/-- A session that goes takes its record along. -/
theorem Mirrored.discard {h : Hub} (hm : h.Mirrored) {id : ClientId} {s s' : Session}
    (hs : h.sessions.byId.lookup id = some s) (hclient : s'.clientId = s.clientId) :
    ((h.setSession id s').discard id).Mirrored := by
  have hquiet : Quiet h (h.setSession id s') := quiet_setSession hs hclient
  have hset : (h.setSession id s').sessions.byId.lookup id = some s' := by
    rw [lookup_setSession hs, if_pos rfl]
  refine ⟨(hm.remove hs (hm.unique hs) ?_ ?_ ?_ ?_).1,
    hm.consistent.effect (effect_discard hquiet id)⟩
  · intro i
    unfold Hub.discard
    rw [hset]
    simp only [enqueue, AssocMap.lookup_erase, lookup_setSession hs]
    split <;> rfl
  · unfold Hub.discard
    rw [hset]
    rfl
  · unfold Hub.discard
    rw [hset]
    rfl
  · unfold Hub.discard
    rw [hset, ← hclient]
    rfl

/-- Changing what the record does not show of a session. -/
theorem Mirrored.touch {h : Hub} (hm : h.Mirrored) {id : ClientId} {s s' : Session}
    (hs : h.sessions.byId.lookup id = some s) (hframe : Session.Frame s s')
    (hsame : s.SameQueue s') : (h.setSession id s').Mirrored := by
  have hlookup := lookup_setSession hs s'
  refine ⟨⟨hm.disk, ?_, hm.routed, hm.rows, ?_⟩,
    hm.consistent.effect (quiet_setSession hs hframe.clientId).effect⟩
  · intro i t ht
    rw [hlookup] at ht
    split at ht
    · cases ht
      rw [hframe.clientId]
      exact hm.clean id s hs
    · exact hm.clean i t ht
  · intro client hclient
    have hfaithful := hm.faithful client hclient
    constructor
    · intro i t ht htclient hpos
      rw [hlookup] at ht
      split at ht
      next heq =>
        cases ht
        subst heq
        have hold := hfaithful.durable i s hs (hframe.clientId.symm.trans htclient)
          (hframe.expirySecs ▸ hpos)
        have hnew := hold.sameQueue hsame
        rw [hframe.expirySecs, ← hold.expiry] at hnew
        exact hnew
      · exact hfaithful.durable i t ht htclient hpos
    · intro hnone
      refine hfaithful.absent fun i t ht htclient => ?_
      by_cases heq : i = id
      · subst heq
        rw [hs] at ht
        cases ht
        rw [← hframe.expirySecs]
        exact hnone i s' (by rw [hlookup, if_pos rfl]) (hframe.clientId.trans htclient)
      · exact hnone i t (by rw [hlookup, if_neg heq, ht]) htclient

theorem Mirrored.detach {h : Hub} (hm : h.Mirrored) (id : ClientId) (generation : Nat) :
    (h.detach id generation).Mirrored := by
  rcases h.detach_cases id generation with ⟨heq, -⟩ | ⟨s, hs, -, ⟨-, heq⟩ | ⟨-, timers, heq⟩⟩
  · rw [heq]
    exact hm
  · rw [heq]
    refine hm.discard hs ?_
    rfl
  · have hoffline : (h.setSession id { s with tx := none }).Mirrored :=
      hm.touch hs ⟨rfl, rfl⟩ ⟨rfl, rfl⟩
    rw [heq]
    exact hoffline.of_record_eq hoffline.disk rfl rfl rfl rfl fun _ => rfl

theorem Mirrored.expire {h : Hub} (hm : h.Mirrored) (id : ClientId) (generation : Nat) :
    (h.expire id generation).2.Mirrored := by
  rcases h.expire_cases id generation with ⟨heq, -⟩ | ⟨s, hs, -, heq⟩
  · rw [heq]
    exact hm
  · rw [heq]
    refine hm.discard hs ?_
    rfl

/-! ## Sessions coming -/

theorem persistMeta_eq (h : Hub) (clientId : String) (expirySecs : Nat) :
    h.persistMeta clientId expirySecs = h.enqueue (.marker clientId expirySecs) := by
  unfold persistMeta PersistOp.marker
  split <;> rfl

/-- Entering a session for a client that has none. -/
theorem Backed.register {h : Hub} (hb : h.Backed) {client : String} (hclient : CleanId client)
    (hvacant : ∀ i t, h.sessions.byId.lookup i = some t → t.clientId ≠ client)
    (hfree : h.sessions.byId.lookup h.nextId = none) (expirySecs generation : Nat) :
    ((h.register client expirySecs generation).persistMeta client expirySecs).Backed := by
  rw [persistMeta_eq]
  have hempty : h.record client = .empty :=
    (hb.faithful client hclient).absent fun i t ht heq => absurd heq (hvacant i t ht)
  have hlookup : ∀ i, ((h.register client expirySecs generation).enqueue
      (.marker client expirySecs)).sessions.byId.lookup i = if i = h.nextId then
        some (Session.new client (some []) expirySecs generation) else
        h.sessions.byId.lookup i := by
    intro i
    simp only [enqueue, Hub.register, AssocMap.lookup_insert]
  have hdisk : ((h.register client expirySecs generation).enqueue
      (.marker client expirySecs)).disk = (h.enqueue (.marker client expirySecs)).disk := rfl
  refine hb.replace hclient (PersistOp.about_marker client expirySecs) hdisk hlookup ?_ ?_
    (fun _ _ => rfl) ?_ ?_ ?_
  · intro i t ht
    constructor
    · exact fun heq => absurd heq (hvacant i t ht)
    · rintro rfl
      rw [hfree] at ht
      cases ht
  · intro t ht
    cases ht
    rfl
  · intro key hkey
    obtain ⟨hlt, hraw⟩ := hb.routed key hkey
    exact ⟨Nat.lt_succ_of_lt hlt, hraw⟩
  · intro t ht hpos
    cases ht
    have hheld : ∀ key, h.held h.nextId key = none := by
      intro key
      by_contra hkey
      exact Nat.lt_irrefl _ (hb.routed _ hkey).1
    have hpos : 0 < expirySecs := hpos
    rw [PersistOp.onRecord_marker, if_pos hpos, hempty]
    exact Session.recordedAs_blank hheld rfl rfl
  · intro hnone
    have hzero : expirySecs = 0 := hnone _ rfl
    rw [PersistOp.onRecord_marker, if_neg (by omega)]

/-- A session with nothing to write: no subscriptions, nothing in flight, the
counter at its start. -/
def Blank (h : Hub) (id : ClientId) (s : Session) : Prop :=
  s.nextId = 1 ∧ s.inflight = [] ∧ ∀ key ∈ h.router.keys, key.client ≠ id

instance (h : Hub) (id : ClientId) (s : Session) : Decidable (h.Blank id s) :=
  inferInstanceAs (Decidable (_ ∧ _ ∧ _))

theorem Blank.held {h : Hub} {id : ClientId} {s : Session} (hblank : h.Blank id s)
    (key : Option String × String) : h.held id key = none := by
  by_contra hkey
  exact hblank.2.2 _ ((h.router.granted_ne_none_iff ⟨id, key.1, key.2⟩).mp hkey) rfl

/-- Resuming a session under a new expiry interval. -/
theorem Mirrored.resume {h : Hub} (hm : h.Mirrored) {id : ClientId} {s s' : Session}
    (hs : h.sessions.byId.lookup id = some s) (hclient : s'.clientId = s.clientId)
    (hsame : s.SameQueue s')
    (hblank : s.expirySecs = 0 → 0 < s'.expirySecs → h.Blank id s) :
    ((h.setSession id s').persistMeta s.clientId s'.expirySecs).Mirrored := by
  have hclean := hm.clean id s hs
  have hquiet : Quiet h ((h.setSession id s').persistMeta s.clientId s'.expirySecs) :=
    (quiet_setSession hs hclient).trans (quiet_persistMeta _ _ _)
  refine ⟨?_, hm.consistent.effect hquiet.effect⟩
  rw [persistMeta_eq]
  have hdisk : ((h.setSession id s').enqueue (.marker s.clientId s'.expirySecs)).disk =
      (h.enqueue (.marker s.clientId s'.expirySecs)).disk := rfl
  refine hm.replace hclean (PersistOp.about_marker s.clientId s'.expirySecs) hdisk
    (lookup_setSession hs s') (hm.unique hs) ?_ (fun _ _ => rfl) hm.routed ?_ ?_
  · intro t ht
    cases ht
    exact hclient
  · intro t ht hpos
    cases ht
    rw [PersistOp.onRecord_marker, if_pos hpos]
    by_cases hzero : s.expirySecs = 0
    · -- nothing was written so far, and there was nothing to write
      have hblank := hblank hzero hpos
      have hrow : h.record s.clientId = .empty := by
        refine (hm.faithful s.clientId hclean).absent fun i t ht heq => ?_
        obtain rfl := (hm.unique hs i t ht).mp heq
        rw [hs] at ht
        cases ht
        exact hzero
      rw [hrow]
      exact (Session.recordedAs_blank hblank.held hblank.1 hblank.2.1).sameQueue hsame
    · exact ((hm.faithful s.clientId hclean).durable id s hs rfl
        (Nat.pos_of_ne_zero hzero)).sameQueue hsame
  · intro hnone
    have hzero := hnone s' rfl
    rw [PersistOp.onRecord_marker, if_neg (by omega)]

theorem Mirrored.bumpGeneration {h : Hub} (hm : h.Mirrored) : h.bumpGeneration.Mirrored :=
  hm.of_record_eq hm.disk rfl rfl rfl rfl fun _ => rfl

/-- Becoming durable writes the marker only, hence the condition that there is nothing
else to write. -/
theorem Mirrored.connect {h h' : Hub} (hm : h.Mirrored) {clientId : String} {cleanStart : Bool}
    {expirySecs now : Nat} {c : Connected} (hclean : CleanId clientId)
    (hblank : ∀ id s, cleanStart = false → h.sessions.byId.lookup id = some s →
      s.clientId = clientId → s.expirySecs = 0 → 0 < expirySecs → h.Blank id s)
    (hconnect : h.connect clientId cleanStart expirySecs now = some (c, h')) : h'.Mirrored := by
  have hcons := hm.consistent.effect (effect_connect hconnect)
  have hbump := hm.bumpGeneration
  have hfree : h.sessions.byId.lookup h.nextId = none :=
    Option.map_eq_none_iff.mp hm.consistent.clientOf_nextId
  rcases connect_cases hconnect with
    ⟨hid, -, rfl⟩ | ⟨id, hid, -, -, rfl⟩ | ⟨id, s, hid, hresume, hs, -, rfl⟩
  · refine ⟨hbump.register hclean ?_ hfree _ _, hcons⟩
    intro i t ht hclient
    have hsome := (hm.consistent.inverse clientId i).mpr
      (clientOf_eq_some_iff.mpr ⟨t, ht, hclient⟩)
    rw [hid] at hsome
    cases hsome
  · obtain ⟨s, hs, rfl⟩ := clientOf_eq_some_iff.mp ((hm.consistent.inverse clientId id).mp hid)
    have hlookup : ∀ i, ((h.bumpGeneration.dropSession id).forgetPersisted
        s.clientId).sessions.byId.lookup i =
          if i = id then none else h.sessions.byId.lookup i := by
      intro i
      simp only [forgetPersisted, enqueue, dropSession, AssocMap.lookup_erase]
      rfl
    -- in between the client has no session and an empty record
    obtain ⟨hb, hvacant⟩ := hbump.remove hs (hbump.unique hs) hlookup rfl rfl rfl
    refine ⟨hb.register hclean hvacant ?_ _ _, hcons⟩
    rw [hlookup]
    split
    · rfl
    · exact hfree
  · obtain ⟨t, ht, rfl⟩ := clientOf_eq_some_iff.mp ((hm.consistent.inverse clientId id).mp hid)
    obtain rfl : s = t := Option.some.inj (hs.symm.trans ht)
    have hsame := Session.sameQueue_retransmit s now h.retry
    exact hbump.resume hs rfl ⟨hsame.nextId, hsame.inflight⟩ (hblank id s hresume hs rfl)

/-! ## Subscriptions -/

theorem durableClient_eq_some {h : Hub} {id : ClientId} {s : Session}
    (hs : h.sessions.byId.lookup id = some s) (hpos : 0 < s.expirySecs) :
    h.durableClient id = some s.clientId := by
  simp [durableClient, hs, Option.filter, hpos]

/-- A change of what the router holds for a handle under one key, with the row of
the string behind it if the session is durable. -/
structure Edit (h h' : Hub) (id : ClientId) (raw : String) (key : Option String × String)
    (value : Option QoS) : Prop where
  parsed : routeKey raw = some key ∨ routeKey raw = none ∧ value = none
  only : ∀ raw', routeKey raw' = some key → raw' = raw
  sessions : h'.sessions = h.sessions
  nextId : h'.nextId = h.nextId
  granted : h'.router.granted = Function.update h.router.granted ⟨id, key.1, key.2⟩ value
  disk : h'.disk = match h.durableClient id with
    | some client => (h.enqueue (.subscription client raw value)).disk
    | none => h.disk

section

variable {h h' : Hub} {id : ClientId} {raw : String} {key : Option String × String}
  {value : Option QoS} (hedit : Edit h h' id raw key value)

include hedit

theorem Edit.held : h'.held id = Function.update (h.held id) key value := by
  funext k
  obtain ⟨group, filter⟩ := key
  obtain ⟨group', filter'⟩ := k
  simp only [Hub.held, hedit.granted, Function.update_apply, SubscriptionKey.mk.injEq, true_and,
    Prod.mk.injEq]

theorem Edit.held_of_ne {i : ClientId} (hi : i ≠ id) : h'.held i = h.held i := by
  funext k
  unfold Hub.held
  rw [hedit.granted, Function.update_of_ne fun heq => hi (congrArg SubscriptionKey.client heq)]

end

/-- The row follows the router under the string that was parsed. -/
theorem Mirrored.edit {h h' : Hub} (hm : h.Mirrored) {id : ClientId} {raw : String}
    {key : Option String × String} {value : Option QoS} (hedit : Edit h h' id raw key value)
    (hid : value ≠ none → id < h.nextId ∧ routeKey raw = some key) : h'.Mirrored := by
  have hheld : ∀ i, i ≠ id → h'.held i = h.held i := fun i hi => hedit.held_of_ne hi
  have hrouted : ∀ k, h'.router.granted k ≠ none →
      k.client < h'.nextId ∧ ∃ raw, routeKey raw = some (k.group, k.filter) := by
    intro k hk
    rw [hedit.granted, Function.update_apply] at hk
    rw [hedit.nextId]
    split at hk
    next heq =>
      subst heq
      exact ⟨(hid hk).1, raw, (hid hk).2⟩
    · exact hm.routed k hk
  have hcons : h'.Consistent := by
    unfold Consistent
    rw [hedit.sessions, hedit.nextId]
    exact hm.consistent
  have hdisk := hedit.disk
  cases hdurable : h.durableClient id with
  | none =>
      rw [hdurable] at hdisk
      refine ⟨⟨hdisk ▸ hm.disk, hedit.sessions ▸ hm.clean, hrouted, ?_, ?_⟩, hcons⟩
      · intro client
        rw [record_congr hdisk]
        exact hm.rows client
      · intro client hclient
        refine (hm.faithful client hclient).transfer ?_ ?_ (record_congr hdisk client)
        · intro i s _
          rw [hedit.sessions]
        · intro i s hs _ hpos
          refine hheld i ?_
          rintro rfl
          rw [durableClient_eq_some hs hpos] at hdurable
          cases hdurable
  | some client =>
      rw [hdurable] at hdisk
      obtain ⟨s, hs, hclient⟩ := Option.map_eq_some_iff.mp hdurable
      obtain ⟨hs, hpos⟩ := Option.filter_eq_some_iff.mp hs
      have hpos : 0 < s.expirySecs := of_decide_eq_true hpos
      subst hclient
      have hlookup : ∀ i, h'.sessions.byId.lookup i =
          if i = id then some s else h.sessions.byId.lookup i := by
        intro i
        rw [hedit.sessions]
        split
        next hi => rw [hi, hs]
        next => rfl
      have hclean := hm.clean id s hs
      refine ⟨hm.replace hclean (PersistOp.about_subscription _ raw value) hdisk hlookup
        (hm.unique hs) ?_ hheld hrouted ?_ ?_, hcons⟩
      · intro t ht
        cases ht
        rfl
      · intro t ht _
        cases ht
        rw [PersistOp.onRecord_subscription, hedit.held]
        exact ((hm.faithful s.clientId hclean).durable id s hs rfl hpos).edit hedit.parsed
          hedit.only
      · intro hnone
        exact absurd (hnone s rfl) hpos.ne'

/-- One filter of a SUBSCRIBE, parsed the way the handler does. -/
def subscribeRaw (h : Hub) (id : ClientId) (raw : String) (qos : QoS) : Hub :=
  match SharedSubscription.parse raw with
  | some shared => h.subscribeShared shared.group id shared.filter qos raw
  | none =>
      match TopicFilter.parse raw with
      | some filter => h.subscribe id filter qos raw
      | none => h

theorem reaches_subscribeRaw (h : Hub) (id : ClientId) (raw : String) (qos : QoS) :
    h.Reaches (h.subscribeRaw id raw qos) := by
  unfold subscribeRaw
  split
  · exact reaches_subscribeShared ..
  · split
    · exact reaches_subscribe ..
    · exact .refl h

theorem persistSubscription_eq (h : Hub) (id : ClientId) (raw : String) (qos : QoS) :
    h.persistSubscription id raw qos = { h with disk := match h.durableClient id with
      | some client => (h.enqueue (.putSubscription client raw qos)).disk
      | none => h.disk } := by
  unfold persistSubscription
  cases h.durableClient id <;> rfl

theorem forgetSubscription_eq (h : Hub) (id : ClientId) (raw : String) :
    h.forgetSubscription id raw = { h with disk := match h.durableClient id with
      | some client => (h.enqueue (.removeSubscription client raw)).disk
      | none => h.disk } := by
  unfold forgetSubscription
  cases h.durableClient id <;> rfl

/-- Both kinds of subscription are the same edit, under different keys. -/
theorem edit_subscribeRaw (h : Hub) (id : ClientId) {raw : String} (qos : QoS)
    {key : Option String × String} (hkey : routeKey raw = some key) :
    Edit h (h.subscribeRaw id raw qos) id raw key (some qos) := by
  have hedit : ∀ router : Router,
      router.granted = Function.update h.router.granted ⟨id, key.1, key.2⟩ (some qos) →
      Edit h (persistSubscription { h with router := router } id raw qos) id raw key (some qos) := by
    intro router hgranted
    rw [persistSubscription_eq]
    exact ⟨Or.inl hkey, fun raw' hraw' => routeKey_inj hraw' hkey, rfl, rfl, hgranted, rfl⟩
  unfold Hub.subscribeRaw
  cases hshared : SharedSubscription.parse raw with
  | some shared =>
      simp only [routeKey, hshared, Option.some.injEq] at hkey
      subst hkey
      exact hedit _ (h.router.granted_subscribeShared id shared.filter qos shared.group)
  | none =>
      cases hfilter : TopicFilter.parse raw with
      | some filter =>
          simp only [routeKey, hshared, hfilter, Option.map_some, Option.some.injEq] at hkey
          subst hkey
          exact hedit _ (h.router.granted_subscribe id filter qos)
      | none => simp [routeKey, hshared, hfilter] at hkey

theorem subscribeRaw_of_none (h : Hub) (id : ClientId) {raw : String} (qos : QoS)
    (hkey : routeKey raw = none) : h.subscribeRaw id raw qos = h := by
  unfold Hub.subscribeRaw
  cases hshared : SharedSubscription.parse raw with
  | some shared => simp [routeKey, hshared] at hkey
  | none =>
      cases hfilter : TopicFilter.parse raw with
      | some filter => simp [routeKey, hshared, hfilter] at hkey
      | none => rfl

theorem Mirrored.subscribeRaw {h : Hub} (hm : h.Mirrored) {id : ClientId} (hid : id < h.nextId)
    (raw : String) (qos : QoS) : (h.subscribeRaw id raw qos).Mirrored := by
  cases hkey : routeKey raw with
  | some key => exact hm.edit (edit_subscribeRaw h id qos hkey) fun _ => ⟨hid, hkey⟩
  | none =>
      rw [subscribeRaw_of_none h id qos hkey]
      exact hm

/-- An unsubscribe is an edit, also of a string that does not parse. -/
theorem edit_unsubscribe (h : Hub) (id : ClientId) (raw : String) :
    ∃ key, Edit h (h.unsubscribe id raw).2 id raw key none := by
  have hedit : ∀ (router : Router) (key : Option String × String),
      (routeKey raw = some key ∨ routeKey raw = none ∧ (none : Option QoS) = none) →
      (∀ raw', routeKey raw' = some key → raw' = raw) →
      router.granted = Function.update h.router.granted ⟨id, key.1, key.2⟩ none →
      Edit h (forgetSubscription { h with router := router } id raw) id raw key none := by
    intro router key hraw hkey hgranted
    rw [forgetSubscription_eq]
    exact ⟨hraw, hkey, rfl, rfl, hgranted, rfl⟩
  simp only [Hub.unsubscribe, unroute]
  cases hshared : SharedSubscription.parse raw with
  | some shared =>
      have hkey : routeKey raw = some (some shared.group, shared.filter.asStr) := by
        simp [routeKey, hshared]
      exact ⟨_, hedit _ _ (Or.inl hkey) (fun raw' hraw' => routeKey_inj hraw' hkey)
        (h.router.granted_unsubscribeShared id shared.group _)⟩
  | none =>
      refine ⟨(none, raw), hedit _ (none, raw) ?_ (fun _ => eq_of_routeKey)
        (h.router.granted_unsubscribe id raw)⟩
      -- a string that is no filter at all was never granted, and has no row
      cases hfilter : TopicFilter.parse raw with
      | some filter =>
          have hraw := TopicFilter.parse_eq_some_iff.mp hfilter
          exact Or.inl (by simp [routeKey, hshared, hfilter, hraw])
      | none => exact Or.inr ⟨by simp [routeKey, hshared, hfilter], rfl⟩

theorem Mirrored.unsubscribe {h : Hub} (hm : h.Mirrored) (id : ClientId) (raw : String) :
    (h.unsubscribe id raw).2.Mirrored := by
  obtain ⟨key, hedit⟩ := edit_unsubscribe h id raw
  exact hm.edit hedit fun hne => absurd rfl hne

end Hub

end Relay
