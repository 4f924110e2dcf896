import Relay.Server.EachSession
import Relay.Server.Mirror
import Relay.Server.Startup

/-! # What the record of a session loads as

The rows of a client are read back as one persisted session. If they are the
record of a durable session whose queue the blob can hold, startup makes that
session and its subscriptions of them.
-/

namespace Relay

/-! ## Rows of one client -/

namespace Storage

/-- A session is loaded from its own row with the subscriptions that name it. -/
theorem mem_loadSessions {st : Storage} {ps : PersistedSession} :
    ps ∈ st.loadSessions ↔ (st.record ps.clientId).expiry = some ps.expirySecs ∧
      ps.subscriptions =
        (st.loadSubscriptions.filter fun sub => sub.1 = ps.clientId).map Prod.snd := by
  simp only [loadSessions, List.mem_map, Prod.exists, record,
    ← Std.TreeMap.mem_toList_iff_getElem?_eq_some]
  constructor
  · rintro ⟨client, expirySecs, hrow, rfl⟩
    exact ⟨hrow, rfl⟩
  · rintro ⟨hrow, hsubs⟩
    refine ⟨ps.clientId, ps.expirySecs, hrow, ?_⟩
    rw [← hsubs]

/-- The session row of a client determines what is loaded for it. -/
theorem eq_of_mem_loadSessions {st : Storage} {ps ps' : PersistedSession}
    (hps : ps ∈ st.loadSessions) (hps' : ps' ∈ st.loadSessions)
    (hclient : ps.clientId = ps'.clientId) : ps = ps' := by
  obtain ⟨client, expirySecs, subscriptions⟩ := ps
  obtain ⟨client', expirySecs', subscriptions'⟩ := ps'
  obtain ⟨hrow, hsubs⟩ := mem_loadSessions.mp hps
  obtain ⟨hrow', hsubs'⟩ := mem_loadSessions.mp hps'
  dsimp only at hclient hrow hsubs hrow' hsubs'
  subst hclient
  rw [hrow] at hrow'
  cases hrow'
  rw [hsubs, hsubs']

/-- The subscriptions loaded for a client are the rows under its keys. -/
theorem mem_subscriptions {st : Storage} {ps : PersistedSession} (hps : ps ∈ st.loadSessions)
    (hclient : CleanId ps.clientId) {raw : String} {qos : QoS} :
    (raw, qos) ∈ ps.subscriptions ↔ ∃ bytes, (st.record ps.clientId).subs raw = some bytes ∧
      (bytes.head?.bind QoS.fromU8).getD .atMostOnce = qos := by
  rw [(mem_loadSessions.mp hps).2]
  simp only [loadSubscriptions, List.mem_map, List.mem_filter, List.mem_filterMap,
    Std.TreeMap.mem_toList_iff_getElem?_eq_some, Option.map_eq_some_iff, Prod.exists,
    decide_eq_true_eq, Prod.mk.injEq, record]
  constructor
  · rintro ⟨client, raw', qos', ⟨⟨key, bytes, hrow, c, r, hsplit, rfl, rfl, rfl⟩, rfl⟩, rfl, rfl⟩
    rw [(Text.splitOnce_eq_some_iff.mp hsplit).2] at hrow
    exact ⟨bytes, hrow, rfl⟩
  · rintro ⟨bytes, hrow, rfl⟩
    exact ⟨ps.clientId, raw, _, ⟨⟨subscriptionKey ps.clientId raw, bytes, hrow, _, _,
      splitOnce_subscriptionKey hclient raw, rfl, rfl, rfl⟩, rfl⟩, rfl, rfl⟩

end Storage

/-- Subscriptions that are all granted, and cover every grant, restore it. -/
theorem restoredQos_eq {held : Option String × String → Option QoS} {subs : List (String × QoS)}
    {key : Option String × String} {before : Option QoS}
    (hright : ∀ sub ∈ subs, routeKey sub.1 = some key → held key = some sub.2)
    (hcover : before = held key ∨ ∃ sub ∈ subs, routeKey sub.1 = some key) :
    restoredQos key before subs = held key := by
  induction subs generalizing before with
  | nil =>
      rcases hcover with hbefore | ⟨_, hsub, _⟩
      · exact hbefore
      · cases hsub
  | cons sub rest ih =>
      rw [List.forall_mem_cons] at hright
      unfold restoredQos
      rw [List.foldl_cons]
      refine ih hright.2 ?_
      by_cases hkey : routeKey sub.1 = some key
      · rw [if_pos hkey]
        exact Or.inl (hright.1 hkey).symm
      · rw [if_neg hkey]
        rcases hcover with hbefore | ⟨sub', hsub', hkey'⟩
        · exact Or.inl hbefore
        · rcases List.mem_cons.mp hsub' with rfl | hrest
          · exact absurd hkey' hkey
          · exact Or.inr ⟨sub', hrest, hkey'⟩

/-- The subscriptions loaded from the record of a session are those it holds. -/
theorem PersistedSession.held_eq {st : Storage} {ps : PersistedSession}
    (hps : ps ∈ st.loadSessions) (hclean : CleanId ps.clientId)
    {held : Option String × String → Option QoS} {s : Session}
    (hrecord : s.RecordedAs held (st.record ps.clientId))
    (hraw : ∀ key, held key ≠ none → ∃ raw, routeKey raw = some key) : ps.held = held := by
  -- the loaded strings are those the session holds a key for
  have hmem : ∀ raw qos, (raw, qos) ∈ ps.subscriptions ↔ (routeKey raw).bind held = some qos := by
    intro raw qos
    rw [Storage.mem_subscriptions hps hclean, hrecord.subs]
    cases (routeKey raw).bind held <;> simp
  funext key
  apply restoredQos_eq
  · rintro ⟨raw, qos⟩ hsub hkey
    have hheld := (hmem raw qos).mp hsub
    rwa [hkey] at hheld
  · cases hheld : held key with
    | none => exact Or.inl rfl
    | some qos =>
        obtain ⟨raw, hkey⟩ := hraw key (by rw [hheld]; exact Option.some_ne_none qos)
        refine Or.inr ⟨(raw, qos), (hmem raw qos).mpr ?_, hkey⟩
        rw [hkey]
        exact hheld

/-- What is held once loaded comes from a row. -/
theorem PersistedSession.held_ne_none_iff {st : Storage} {ps : PersistedSession}
    (hps : ps ∈ st.loadSessions) (hclean : CleanId ps.clientId) {key : Option String × String} :
    ps.held key ≠ none ↔
      ∃ raw, (st.record ps.clientId).subs raw ≠ none ∧ routeKey raw = some key := by
  unfold held
  rw [restoredQos_ne_none_iff]
  constructor
  · rintro (hnone | ⟨⟨raw, qos⟩, hsub, hkey⟩)
    · exact absurd rfl hnone
    · obtain ⟨bytes, hrow, -⟩ := (Storage.mem_subscriptions hps hclean).mp hsub
      refine ⟨raw, ?_, hkey⟩
      rw [hrow]
      exact Option.some_ne_none bytes
  · rintro ⟨raw, hrow, hkey⟩
    obtain ⟨bytes, hrow⟩ := Option.ne_none_iff_exists'.mp hrow
    exact Or.inr ⟨(raw, _), (Storage.mem_subscriptions hps hclean).mpr ⟨bytes, hrow, rfl⟩, hkey⟩

/-- A durable session as it comes back: offline, with the retry clocks restarted
and the inbound dedup set forgotten. -/
def Session.restored (s : Session) (now : Nat) (retry : RetryConfig) : Session :=
  { s with
    tx := none
    inflight := s.inflight.map (InflightEntry.rearm now retry)
    incomingQos2 := ∅
    generation := 0 }

theorem Session.sameQueue_restored (s : Session) (now : Nat) (retry : RetryConfig) :
    s.SameQueue (s.restored now retry) := by
  refine ⟨rfl, ?_⟩
  simp only [restored, List.map_map]
  rfl

/-- A session comes back from its record, if its queue can be read back. -/
theorem restoreSession_eq {st : Storage} {ps : PersistedSession} {s : Session}
    (hclient : ps.clientId = s.clientId) (hexpiry : ps.expirySecs = s.expirySecs)
    {held : Option String × String → Option QoS}
    (hrecord : s.RecordedAs held (st.record s.clientId)) (hcoded : s.Coded)
    (hfits : ∀ e ∈ s.inflight, e.state.Fits) (retry : RetryConfig) (now : Nat) :
    Hub.restoreSession st retry now ps = s.restored now retry := by
  unfold Hub.restoreSession
  rw [hclient, hexpiry]
  rcases hrecord.inflight with hblob | ⟨hblob, hid, hqueue⟩
  · have hrow : st.inflight[s.clientId]? = some s.encodeInflight := hblob
    rw [hrow, Option.bind_some,
      decodeInflight_encodeInflight hcoded.lt hcoded.queued hfits now retry]
    rfl
  · have hrow : st.inflight[s.clientId]? = none := hblob
    rw [hrow, Option.bind_none]
    simp [Session.new, Session.restored, hid, hqueue]

end Relay
