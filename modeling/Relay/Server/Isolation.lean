import Relay.Server.StoreHistory

/-! # Rows of different clients

A subscription row belongs to the client before the first separator of its key.
Keys are joined without looking at the client identifier, so a client whose
identifier contains the separator writes and removes rows of the client that the
beginning of its identifier names. No other client is affected by a write.
-/

namespace Relay

namespace Storage

/-- What is loaded for a client: its session with the subscriptions, and its in-flight
blob. -/
def loadedFor (st : Storage) (client : String) : List PersistedSession × Option Bytes :=
  (st.loadSessions.filter fun ps => ps.clientId = client, st.loadInflight.lookup client)

/-- The client whose row a subscription key is. -/
def ownerOf (key : String) : Option String := (Text.splitOnce sep key).map Prod.fst

/-- The subscriptions of a client are loaded from the rows it owns. -/
theorem filter_loadSubscriptions (st : Storage) (client : String) :
    st.loadSubscriptions.filter (fun sub => sub.1 = client) =
      (st.subscriptions.toList.filter fun row => ownerOf row.1 = some client).filterMap fun row =>
        (Text.splitOnce sep row.1).map fun key =>
          (key.1, key.2, (row.2.head?.bind QoS.fromU8).getD .atMostOnce) := by
  rw [loadSubscriptions, List.filter_filterMap, List.filterMap_filter]
  congr 1
  funext row
  cases hsplit : Text.splitOnce sep row.1 with
  | none => simp [ownerOf, hsplit]
  | some key => by_cases hclient : key.1 = client <;> simp [ownerOf, hsplit, hclient]

/-- A client is loaded once, from its own row. -/
theorem filter_loadSessions (st : Storage) (client : String) :
    st.loadSessions.filter (fun ps => ps.clientId = client) =
      st.sessions[client]?.toList.map fun expirySecs =>
        { clientId := client
          expirySecs := expirySecs
          subscriptions :=
            (st.loadSubscriptions.filter fun sub => sub.1 = client).map Prod.snd } := by
  have hrows := Table.filter_key_toList st.sessions client
  rw [loadSessions, List.filter_map]
  simp only [Function.comp_def, hrows, List.map_map]

/-- What is loaded for a client depends on its own rows. -/
theorem loadedFor_congr {st st' : Storage} {client : String}
    (hsession : st'.sessions[client]? = st.sessions[client]?)
    (hsubs : ∀ key, ownerOf key = some client → st'.subscriptions[key]? = st.subscriptions[key]?)
    (hinflight : st'.inflight[client]? = st.inflight[client]?) :
    st'.loadedFor client = st.loadedFor client := by
  have hrows : st'.subscriptions.toList.filter (fun row => ownerOf row.1 = some client) =
      st.subscriptions.toList.filter fun row => ownerOf row.1 = some client :=
    Table.filter_toList_congr (p := fun key => ownerOf key = some client) fun key hkey =>
      hsubs key (of_decide_eq_true hkey)
  unfold loadedFor
  rw [filter_loadSessions, filter_loadSessions, filter_loadSubscriptions,
    filter_loadSubscriptions, hsession, hrows, lookup_loadInflight, lookup_loadInflight, record,
    record, hinflight]

/-! ## Keys of a client -/

/-- The owner of the keys of a client: the client, or what comes before the first
separator in its identifier. -/
theorem ownerOf_subscriptionKey (client raw : String) :
    ownerOf (subscriptionKey client raw) = some ((ownerOf client).getD client) := by
  unfold ownerOf
  cases hsplit : Text.splitOnce sep client with
  | none =>
      have hclean : CleanId client := by
        intro hmem
        simp [Text.splitOnce, hmem] at hsplit
      rw [splitOnce_subscriptionKey hclean]
      rfl
  | some parts =>
      obtain ⟨before, after⟩ := parts
      obtain ⟨hbefore, rfl⟩ := Text.splitOnce_eq_some_iff.mp hsplit
      have hkey : subscriptionKey (before ++ String.singleton sep ++ after) raw =
          subscriptionKey before (after ++ String.singleton sep ++ raw) := by
        simp only [subscriptionKey, String.append_assoc]
      rw [hkey, splitOnce_subscriptionKey hbefore]
      rfl

theorem subscriptionKey_ne {c d : String} (hne : c ≠ d) (howner : ownerOf c ≠ some d) (raw : String)
    {key : String} (hkey : ownerOf key = some d) : subscriptionKey c raw ≠ key := by
  rintro rfl
  rw [ownerOf_subscriptionKey, Option.some.injEq] at hkey
  cases hc : ownerOf c with
  | none =>
      rw [hc] at hkey
      exact hne hkey
  | some owner =>
      rw [hc] at hkey howner
      exact howner (congrArg some hkey)

/-- A write leaves the subscription rows of a client alone that neither is the client it
is about nor begins that client's identifier. -/
theorem subscriptions_of_owner {c d : String} (hne : c ≠ d) (howner : ownerOf c ≠ some d)
    (st : Storage) {op : PersistOp} (hop : op.client? = some c) {key : String}
    (hkey : ownerOf key = some d) :
    (st.applyPersistOp op).subscriptions[key]? = st.subscriptions[key]? := by
  cases op with
  | putSubscription c' raw qos =>
      cases hop
      simp [applyPersistOp, putSubscription, Std.TreeMap.getElem?_insert,
        subscriptionKey_ne hne howner raw hkey]
  | removeSubscription c' raw =>
      cases hop
      simp [applyPersistOp, removeSubscription, Std.TreeMap.getElem?_erase,
        subscriptionKey_ne hne howner raw hkey]
  | removeSession c' =>
      cases hop
      have hkeep : ¬ Text.startsWith (c ++ String.singleton sep) key = true := by
        rw [Text.startsWith_iff]
        rintro ⟨raw, hraw⟩
        exact subscriptionKey_ne hne howner raw hkey hraw.symm
      simp only [applyPersistOp, removeSession, Table.getElem?_eraseAll, List.mem_filter]
      exact if_neg fun hmem => hkeep hmem.2
  | putInflight c' blob =>
      simp only [applyPersistOp, putInflight]
      split <;> rfl
  | putSession c' expirySecs => rfl
  | _ => cases hop

/-- A write for one client leaves what is loaded for another, unless the first one's
identifier reads as a key of the second. -/
theorem loadedFor_of_owner {c d : String} (hne : c ≠ d) (howner : ownerOf c ≠ some d)
    (st : Storage) {op : PersistOp} (hop : op.client? = some c) :
    (st.applyPersistOp op).loadedFor d = st.loadedFor d := by
  refine loadedFor_congr ?_ (fun key hkey => subscriptions_of_owner hne howner st hop hkey) ?_
  · rw [sessions_applyPersistOp]
    cases op with
    | putSession c' expirySecs =>
        cases hop
        exact if_neg hne
    | removeSession c' =>
        cases hop
        exact if_neg hne
    | _ => rfl
  · rw [inflight_applyPersistOp]
    cases op with
    | putInflight c' blob =>
        cases hop
        exact if_neg hne
    | removeSession c' =>
        cases hop
        exact if_neg hne
    | _ => rfl

/-- A subscription of a client that begins with another one and a separator is
loaded for that other client. -/
theorem exists_loadSubscriptions {c d : String} (howner : ownerOf c = some d) (st : Storage)
    (raw : String) (qos : QoS) :
    ∃ sub ∈ (st.putSubscription c raw qos).loadSubscriptions, sub.1 = d := by
  have hkey : ownerOf (subscriptionKey c raw) = some d := by
    rw [ownerOf_subscriptionKey, howner, Option.getD_some]
  obtain ⟨parts, hparts, hd⟩ := Option.map_eq_some_iff.mp hkey
  refine ⟨(parts.1, parts.2, qos), ?_, hd⟩
  refine List.mem_filterMap.mpr ⟨(subscriptionKey c raw, [qos.toU8]), ?_, ?_⟩
  · rw [Std.TreeMap.mem_toList_iff_getElem?_eq_some]
    exact Std.TreeMap.getElem?_insert_self
  · simp [hparts]

/-- Writes that carry one client identifier never change what is loaded for another
exactly if the other does not come before the first separator of the first. -/
theorem isolated_iff_not_owner (c d : String) (hne : c ≠ d) :
    (∀ (st : Storage) (op : PersistOp), op.client? = some c →
      (st.applyPersistOp op).loadedFor d = st.loadedFor d) ↔ ownerOf c ≠ some d := by
  constructor
  · intro hisolated howner
    -- the session of the one client, and a subscription of the other
    let st := empty.putSession d 1
    have hsession : st.sessions[d]? = some 1 := Std.TreeMap.getElem?_insert_self
    have hloaded := congrArg Prod.fst (hisolated st (.putSubscription c "" .atMostOnce) rfl)
    obtain ⟨sub, hsub, hd⟩ := exists_loadSubscriptions howner st "" .atMostOnce
    have hbefore : st.loadSubscriptions = [] := by
      simp [st, loadSubscriptions, putSession, empty]
    have hsession' : (st.applyPersistOp (.putSubscription c "" .atMostOnce)).sessions[d]? =
        some 1 := hsession
    simp only [loadedFor, filter_loadSessions, hsession, hsession', Option.toList_some,
      List.map_cons, List.map_nil, List.cons.injEq, PersistedSession.mk.injEq, true_and, and_true,
      hbefore, List.filter_nil, List.map_eq_nil_iff, List.filter_eq_nil_iff,
      decide_eq_true_eq] at hloaded
    exact hloaded sub hsub hd
  · exact fun howner st op hop => loadedFor_of_owner hne howner st hop

/-- Identifiers that begin alike. -/
theorem isolated_of_common_beginning :
    "ab" ≠ "a" ∧ ∀ (st : Storage) (op : PersistOp), op.client? = some "ab" →
      (st.applyPersistOp op).loadedFor "a" = st.loadedFor "a" :=
  ⟨by decide, (isolated_iff_not_owner "ab" "a" (by decide)).mpr (by decide)⟩

/-- The client `a` has no subscription, until one of `a\0b` is stored. -/
theorem not_isolated_by_separator :
    "a\x00b" ≠ "a" ∧
      ((empty.putSession "a" 60).applyPersistOp
        (.putSubscription "a\x00b" "t" .atLeastOnce)).loadedFor "a" ≠
      (empty.putSession "a" 60).loadedFor "a" := by
  refine ⟨by decide, fun hsame => ?_⟩
  have hsubs := congrArg (fun loaded => loaded.1.map PersistedSession.subscriptions) hsame
  revert hsubs
  decide +kernel

end Storage

end Relay
