import Relay.Server.Handler
import Relay.Server.Restart

/-! # Subscription strings and SUBSCRIBE packets

A subscription is kept as the string the client sent and parsed again wherever it is
needed: when it is granted, when it is removed and when the store is loaded. Every site
reads it the same way. The second part follows one SUBSCRIBE packet through the handler:
which filters are granted, which calls are made for them and in which order.
-/

namespace Relay

/-! ## The reading of a string -/

/-- What a subscription string stands for: a filter, in a share group or on its own. -/
structure Subscription where
  group : Option String
  filter : TopicFilter
deriving DecidableEq

namespace Subscription

/-- A shared subscription if the string is one, and else a plain filter. -/
def parse (raw : String) : Option Subscription :=
  match SharedSubscription.parse raw with
  | some shared => some ⟨some shared.group, shared.filter⟩
  | none => (TopicFilter.parse raw).map fun filter => ⟨none, filter⟩

def key (sub : Subscription) (id : ClientId) : SubscriptionKey :=
  ⟨id, sub.group, sub.filter.asStr⟩

/-- Add the subscription of a client to the router. -/
def install (sub : Subscription) (r : Router) (id : ClientId) (qos : QoS) : Router :=
  match sub.group with
  | some group => r.subscribeShared group id sub.filter qos
  | none => r.subscribe id sub.filter qos

/-- Remove it; the flag says whether it existed. -/
def uninstall (sub : Subscription) (r : Router) (id : ClientId) : Router × Bool :=
  match sub.group with
  | some group => r.unsubscribeShared group id sub.filter.asStr
  | none => r.unsubscribe id sub.filter.asStr

theorem granted_install (sub : Subscription) (r : Router) (id : ClientId) (qos : QoS) :
    (sub.install r id qos).granted = Function.update r.granted (sub.key id) (some qos) := by
  obtain ⟨group, filter⟩ := sub
  cases group with
  | some group => exact r.granted_subscribeShared id filter qos group
  | none => exact r.granted_subscribe id filter qos

theorem granted_uninstall (sub : Subscription) (r : Router) (id : ClientId) :
    (sub.uninstall r id).1.granted = Function.update r.granted (sub.key id) none := by
  obtain ⟨group, filter⟩ := sub
  cases group with
  | some group => exact r.granted_unsubscribeShared id group filter.asStr
  | none => exact r.granted_unsubscribe id filter.asStr

theorem uninstall_reports (sub : Subscription) (r : Router) (id : ClientId) :
    (sub.uninstall r id).2 = (r.granted (sub.key id)).isSome := by
  obtain ⟨group, filter⟩ := sub
  cases group with
  | some group => exact r.unsubscribeShared_reports group id filter.asStr
  | none => exact r.unsubscribe_reports id filter.asStr

/-! ## The same at every site -/

section Sites

variable {raw : String} {sub : Subscription} (hraw : parse raw = some sub)

include hraw

/-- The two ways in which a string is read. -/
theorem parse_cases :
    (∃ group, sub.group = some group ∧ SharedSubscription.parse raw = some ⟨group, sub.filter⟩) ∨
      sub.group = none ∧ SharedSubscription.parse raw = none ∧
        TopicFilter.parse raw = some sub.filter := by
  unfold parse at hraw
  split at hraw
  next shared hshared =>
    cases hraw
    exact Or.inl ⟨shared.group, rfl, hshared⟩
  next hshared =>
    obtain ⟨filter, hfilter, rfl⟩ := Option.map_eq_some_iff.mp hraw
    exact Or.inr ⟨rfl, hshared, hfilter⟩

theorem routeKey_of_parse : routeKey raw = some (sub.group, sub.filter.asStr) := by
  unfold routeKey
  rcases parse_cases hraw with ⟨group, hgroup, hshared⟩ | ⟨hgroup, hshared, hfilter⟩
  · rw [hshared, hgroup]
  · rw [hshared, hfilter, hgroup]
    rfl

/-- The filter is the one that the permissions are checked against. -/
theorem effectiveFilter_of_parse : effectiveFilter raw = sub.filter.asStr :=
  effectiveFilter_of_routeKey (routeKey_of_parse hraw)

/-- Different strings stand for different subscriptions. -/
theorem eq_of_parse {raw' : String} (hraw' : parse raw' = some sub) : raw' = raw :=
  routeKey_inj (routeKey_of_parse hraw') (routeKey_of_parse hraw)

theorem subscribeRaw_of_parse (h : Hub) (id : ClientId) (qos : QoS) :
    h.subscribeRaw id raw qos =
      Hub.persistSubscription { h with router := sub.install h.router id qos } id raw qos := by
  unfold Hub.subscribeRaw install
  rcases parse_cases hraw with ⟨group, hgroup, hshared⟩ | ⟨hgroup, hshared, hfilter⟩
  · rw [hshared, hgroup]
    rfl
  · rw [hshared, hfilter, hgroup]
    rfl

theorem router_subscribeRaw_of_parse (h : Hub) (id : ClientId) (qos : QoS) :
    (h.subscribeRaw id raw qos).router = sub.install h.router id qos := by
  rw [subscribeRaw_of_parse hraw, Hub.persistSubscription_eq]

theorem unroute_of_parse (h : Hub) (id : ClientId) :
    h.unroute id raw =
      ((sub.uninstall h.router id).2, { h with router := (sub.uninstall h.router id).1 }) := by
  unfold Hub.unroute uninstall
  rcases parse_cases hraw with ⟨group, hgroup, hshared⟩ | ⟨hgroup, hshared, hfilter⟩
  · rw [hshared, hgroup]
  · rw [hshared, hgroup, TopicFilter.parse_eq_some_iff.mp hfilter]

theorem unsubscribe_of_parse (h : Hub) (id : ClientId) :
    (h.unsubscribe id raw).1 = (sub.uninstall h.router id).2 ∧
      (h.unsubscribe id raw).2.router = (sub.uninstall h.router id).1 := by
  rw [Hub.unsubscribe, unroute_of_parse hraw, Hub.forgetSubscription_eq]
  exact ⟨rfl, rfl⟩

theorem restore_of_parse (r : Router) (id : ClientId) (qos : QoS) :
    Hub.restoreSubscription id r (raw, qos) = sub.install r id qos := by
  unfold Hub.restoreSubscription install
  rcases parse_cases hraw with ⟨group, hgroup, hshared⟩ | ⟨hgroup, hshared, hfilter⟩
  · rw [hshared, hgroup]
  · rw [hshared, hfilter, hgroup]

end Sites

end Subscription

/-- Which strings are shared subscriptions, in terms of strings only. -/
theorem map_parse_shared_iff (s group filter : String) :
    ((SharedSubscription.parse s).map fun shared => (shared.group, shared.filter.asStr)) =
        some (group, filter) ↔
      s = "$share/" ++ (group ++ "/" ++ filter) ∧ group ≠ "" ∧ '/' ∉ group.toList ∧
        '+' ∉ group.toList ∧ '#' ∉ group.toList ∧ (TopicFilter.parse filter).isSome = true := by
  constructor
  · intro hmap
    obtain ⟨shared, hshared, heq⟩ := Option.map_eq_some_iff.mp hmap
    cases heq
    obtain ⟨hs, hne, hslash, hplus, hhash⟩ := SharedSubscription.parse_eq_some_iff.mp hshared
    refine ⟨hs, hne, hslash, hplus, hhash, ?_⟩
    rw [TopicFilter.parse_eq_some_iff.mpr rfl]
    rfl
  · rintro ⟨hs, hne, hslash, hplus, hhash, hfilter⟩
    obtain ⟨f, hf⟩ := Option.isSome_iff_exists.mp hfilter
    obtain rfl := TopicFilter.parse_eq_some_iff.mp hf
    have hparse : SharedSubscription.parse s = some ⟨group, f⟩ :=
      SharedSubscription.parse_eq_some_iff.mpr ⟨hs, hne, hslash, hplus, hhash⟩
    rw [hparse]
    rfl

theorem min_maxQos (qos : QoS) : min qos maxQos = qos := by cases qos <;> rfl

namespace Conn

/-- What passes permissions and quota. -/
theorem admits_eq_none_iff {conn : Conn} {limit : Nat} {raw : String} :
    conn.admits limit raw = none ↔
      conn.access.canSubscribe (effectiveFilter raw) = true ∧
        (raw ∈ conn.activeFilters ∨ conn.activeFilters.card < limit) := by
  unfold admits
  split
  next hdenied => simpa using fun hallowed => absurd hallowed hdenied
  next hallowed =>
    split
    next hfull => simp [hfull.1, hfull.2]
    next hroom =>
      simp only [not_and, not_le] at hroom
      simp only [true_iff]
      refine ⟨not_not.mp hallowed, ?_⟩
      by_cases hactive : raw ∈ conn.activeFilters
      · exact Or.inl hactive
      · exact Or.inr (hroom hactive)

theorem admits_ne_granted (conn : Conn) (limit : Nat) (raw : String) (qos : QoS) :
    conn.admits limit raw ≠ some (.granted qos) := by
  unfold admits
  split_ifs <;> simp

/-- One filter of a SUBSCRIBE, by the reading of its string. -/
theorem subscribeOne_eq_parse (conn : Conn) (limit : Nat) (h : Hub) (id : ClientId) (raw : String)
    (qos : QoS) :
    conn.subscribeOne limit h id raw qos =
      match conn.admits limit raw, Subscription.parse raw with
      | some refused, _ => (refused, h, conn)
      | none, none => (.topicFilterInvalid, h, conn)
      | none, some _ => (.granted qos, h.subscribeRaw id raw qos,
          { conn with activeFilters := insert raw conn.activeFilters }) := by
  unfold subscribeOne Subscription.parse Hub.subscribeRaw
  rw [min_maxQos]
  cases conn.admits limit raw with
  | some refused => rfl
  | none =>
      cases SharedSubscription.parse raw with
      | some shared => rfl
      | none => cases TopicFilter.parse raw <;> rfl

end Conn

/-- A string that a SUBSCRIBE accepts is read the same way where it is granted, removed and
loaded, as the subscription whose filter passed the permissions. No other string stands
for that subscription; removing it reports that it existed and leaves all others. The
strings of shared subscriptions are exactly those of the documented form. -/
theorem subscription_strings (conn : Conn) (limit : Nat) (h : Hub) (id : ClientId) (raw : String)
    (qos q : QoS) (haccepted : (conn.subscribeOne limit h id raw qos).1 = .granted q) :
    (∃ sub : Subscription, Subscription.parse raw = some sub ∧
      (sub.group = none → sub.filter.asStr = raw) ∧
      conn.access.canSubscribe sub.filter.asStr = true ∧
      (∀ raw', Subscription.parse raw' = some sub → raw' = raw) ∧
      (conn.subscribeOne limit h id raw qos).2.1.router = sub.install h.router id q ∧
      (∀ (h' : Hub) (i : ClientId), (h'.unsubscribe i raw).1 = (sub.uninstall h'.router i).2 ∧
        (h'.unsubscribe i raw).2.router = (sub.uninstall h'.router i).1) ∧
      (∀ (r : Router) (i : ClientId) (q' : QoS),
        Hub.restoreSubscription i r (raw, q') = sub.install r i q') ∧
      let removed := (conn.subscribeOne limit h id raw qos).2.1.unsubscribe id raw
      removed.1 = true ∧ removed.2.router.granted (sub.key id) = none ∧
        ∀ key, key ≠ sub.key id → removed.2.router.granted key = h.router.granted key) ∧
    ∀ s group filter : String,
      ((SharedSubscription.parse s).map fun shared => (shared.group, shared.filter.asStr)) =
          some (group, filter) ↔
        s = "$share/" ++ (group ++ "/" ++ filter) ∧ group ≠ "" ∧ '/' ∉ group.toList ∧
          '+' ∉ group.toList ∧ '#' ∉ group.toList ∧ (TopicFilter.parse filter).isSome = true := by
  refine ⟨?_, map_parse_shared_iff⟩
  rw [Conn.subscribeOne_eq_parse] at haccepted ⊢
  cases hadmits : conn.admits limit raw with
  | some refused =>
      rw [hadmits] at haccepted
      cases haccepted
      exact absurd hadmits (conn.admits_ne_granted limit raw q)
  | none =>
      cases hraw : Subscription.parse raw with
      | none =>
          rw [hadmits, hraw] at haccepted
          cases haccepted
      | some sub =>
          rw [hadmits, hraw] at haccepted
          cases haccepted
          have hunsubscribe := Subscription.unsubscribe_of_parse hraw
          refine ⟨sub, rfl, ?_, ?_, fun raw' => Subscription.eq_of_parse hraw, ?_, hunsubscribe,
            Subscription.restore_of_parse hraw, ?_⟩
          · intro hgroup
            rcases Subscription.parse_cases hraw with ⟨group, hsome, -⟩ | ⟨-, -, hfilter⟩
            · rw [hgroup] at hsome
              cases hsome
            · exact TopicFilter.parse_eq_some_iff.mp hfilter
          · rw [← Subscription.effectiveFilter_of_parse hraw]
            exact (Conn.admits_eq_none_iff.mp hadmits).1
          · exact Subscription.router_subscribeRaw_of_parse hraw h id qos
          · -- the router after both is the router with one key written and cleared again
            obtain ⟨hflag, hrouter⟩ := hunsubscribe (h.subscribeRaw id raw qos) id
            dsimp only
            rw [hflag, hrouter, sub.uninstall_reports, sub.granted_uninstall,
              Subscription.router_subscribeRaw_of_parse hraw, sub.granted_install]
            refine ⟨by rw [Function.update_self]; rfl, Function.update_self .., fun key hkey => ?_⟩
            rw [Function.update_of_ne hkey, Function.update_of_ne hkey]

/-- A shared subscription next to a plain one of the same client with the same filter. -/
theorem subscription_strings_shared :
    let conn : Conn := { Conn.start "p" with access := ⟨[], ["#"]⟩ }
    let h : Hub := (Hub.new none ⟨5, 5, 60⟩ 0 0).subscribeRaw 1 "t" .atMostOnce
    (conn.subscribeOne 10 h 1 "$share/g/t" .atLeastOnce).1 = .granted .atLeastOnce ∧
      ((conn.subscribeOne 10 h 1 "$share/g/t" .atLeastOnce).2.1.unsubscribe 1 "$share/g/t").1 =
        true ∧
      ((conn.subscribeOne 10 h 1 "$share/g/t" .atLeastOnce).2.1.unsubscribe 1
        "$share/g/t").2.router.granted ⟨1, none, "t"⟩ = some .atMostOnce := by
  intro conn h
  have haccepted : (conn.subscribeOne 10 h 1 "$share/g/t" .atLeastOnce).1 =
      .granted .atLeastOnce := by decide +kernel
  obtain ⟨⟨sub, hsub, -, -, -, -, -, -, hflag, -, hothers⟩, -⟩ :=
    subscription_strings conn 10 h 1 "$share/g/t" .atLeastOnce .atLeastOnce haccepted
  have hgroup : (Subscription.parse "$share/g/t").map Subscription.group = some (some "g") := by
    decide +kernel
  rw [hsub] at hgroup
  refine ⟨haccepted, hflag, (hothers ⟨1, none, "t"⟩ fun heq => ?_).trans (by decide +kernel)⟩
  have hnone : none = sub.group := congrArg SubscriptionKey.group heq
  cases hnone.trans (Option.some.inj hgroup)

/-! ## One SUBSCRIBE packet -/

/-- The call made for a granted filter. -/
def installCall (id : ClientId) (filter : String × QoS) : Option Call :=
  (Subscription.parse filter.1).map fun sub =>
    match sub.group with
    | some group => .subscribeShared group id sub.filter filter.2 filter.1
    | none => .subscribe id sub.filter filter.2 filter.1

/-- What is delivered for it after the acknowledgement: nothing if it is shared. -/
def retainedJob (filter : String × QoS) : Option (TopicFilter × QoS) :=
  (Subscription.parse filter.1).bind fun sub =>
    match sub.group with
    | some _ => none
    | none => some (sub.filter, filter.2)

/-- A filter with the QoS its status grants. -/
def grantedAs (filter : String × QoS) : SubscribeStatus → Option (String × QoS)
  | .granted qos => some (filter.1, qos)
  | _ => none

def retainedCall (id : ClientId) (filter : String × QoS) : Option Call :=
  (retainedJob filter).map fun job => .deliverRetained id job.1 job.2

/-- The granted ones among some filters, given their statuses. -/
def grantedAmong (filters : List (String × QoS)) (statuses : List SubscribeStatus) :
    List (String × QoS) :=
  (filters.zip statuses).filterMap fun entry => grantedAs entry.1 entry.2

/-- Permissions, form and quota of one filter. -/
def Acl.Grants (access : Acl) (limit : Nat) (active : Finset String) (raw : String) : Prop :=
  access.canSubscribe (effectiveFilter raw) = true ∧
    ((SharedSubscription.parse raw).isSome = true ∨ (TopicFilter.parse raw).isSome = true) ∧
    (raw ∈ active ∨ active.card < limit)

theorem isSome_parse_iff (raw : String) :
    (Subscription.parse raw).isSome = true ↔
      (SharedSubscription.parse raw).isSome = true ∨ (TopicFilter.parse raw).isSome = true := by
  unfold Subscription.parse
  cases SharedSubscription.parse raw with
  | some shared => simp
  | none => simp

theorem grantedAs_refused (filter : String × QoS) {status : SubscribeStatus}
    (hrefused : ∀ q, status ≠ .granted q) : grantedAs filter status = none := by
  cases status with
  | granted q => exact absurd rfl (hrefused q)
  | _ => rfl

theorem grantedAmong_cons (filter : String × QoS) (filters : List (String × QoS))
    (status : SubscribeStatus) (statuses : List SubscribeStatus) :
    grantedAmong (filter :: filters) (status :: statuses) =
      (grantedAs filter status).toList ++ grantedAmong filters statuses := by
  rw [grantedAmong, List.zip_cons_cons, List.filterMap_cons]
  cases grantedAs filter status with
  | none => rfl
  | some granted => rfl

/-- The call for a granted filter does what the hub does for its string. -/
theorem perform_installCall {id : ClientId} {filter : String × QoS} {c : Call}
    (hcall : installCall id filter = some c) (h : Hub) (r : Reading) :
    (h.perform r c).map Prod.snd = some (h.subscribeRaw id filter.1 filter.2) := by
  obtain ⟨sub, hraw, rfl⟩ := Option.map_eq_some_iff.mp hcall
  rw [Subscription.subscribeRaw_of_parse hraw]
  obtain ⟨group, parsed⟩ := sub
  cases group with
  | some group => rfl
  | none => rfl

namespace Conn

/-- The active filters once the first `n` filters of a packet are processed. -/
def activeAfter (conn : Conn) (filters : List (String × QoS)) (statuses : List SubscribeStatus)
    (n : Nat) : Finset String :=
  conn.activeFilters ∪ ((grantedAmong (filters.take n) (statuses.take n)).map Prod.fst).toFinset

/-- The status of one filter. -/
def judge (conn : Conn) (limit : Nat) (filter : String × QoS) : SubscribeStatus :=
  match conn.admits limit filter.1, Subscription.parse filter.1 with
  | some refused, _ => refused
  | none, none => .topicFilterInvalid
  | none, some _ => .granted filter.2

def judged (conn : Conn) (limit : Nat) (filter : String × QoS) : Conn :=
  let granted := (grantedAs filter (conn.judge limit filter)).map Prod.fst
  { conn with activeFilters := conn.activeFilters ∪ granted.toFinset }

def judgeAll (limit : Nat) : List (String × QoS) → Conn → List SubscribeStatus
  | [], _ => []
  | filter :: rest, conn =>
      conn.judge limit filter :: judgeAll limit rest (conn.judged limit filter)

theorem judge_eq_granted_iff (conn : Conn) (limit : Nat) (filter : String × QoS) (q : QoS) :
    conn.judge limit filter = .granted q ↔
      q = filter.2 ∧ conn.access.Grants limit conn.activeFilters filter.1 := by
  have hgrants : conn.access.Grants limit conn.activeFilters filter.1 ↔
      conn.admits limit filter.1 = none ∧ (Subscription.parse filter.1).isSome = true := by
    rw [admits_eq_none_iff, isSome_parse_iff]
    exact ⟨fun ⟨hallowed, hform, hroom⟩ => ⟨⟨hallowed, hroom⟩, hform⟩,
      fun ⟨⟨hallowed, hroom⟩, hform⟩ => ⟨hallowed, hform, hroom⟩⟩
  have hne := conn.admits_ne_granted limit filter.1 q
  rw [hgrants, judge]
  cases hadmits : conn.admits limit filter.1 with
  | some refused =>
      rw [hadmits] at hne
      simpa using hne
  | none =>
      cases Subscription.parse filter.1 with
      | none => simp
      | some sub => simp [eq_comm]

/-! ### The active set along the list -/

theorem activeAfter_zero (conn : Conn) (filters : List (String × QoS))
    (statuses : List SubscribeStatus) :
    conn.activeAfter filters statuses 0 = conn.activeFilters := by
  simp [activeAfter, grantedAmong]

theorem activeAfter_succ (conn : Conn) (limit : Nat) (filter : String × QoS)
    (rest : List (String × QoS)) (statuses : List SubscribeStatus) (n : Nat) :
    conn.activeAfter (filter :: rest) (conn.judge limit filter :: statuses) (n + 1) =
      (conn.judged limit filter).activeAfter rest statuses n := by
  have hone : ∀ granted : Option (String × QoS),
      (granted.toList.map Prod.fst).toFinset = (granted.map Prod.fst).toFinset := by
    intro granted
    cases granted <;> rfl
  simp only [activeAfter, judged, List.take_succ_cons]
  rw [grantedAmong_cons, List.map_append, List.toFinset_append, Finset.union_assoc, hone]

theorem judged_granted {conn : Conn} {limit : Nat} {filter : String × QoS} {q : QoS}
    (hgranted : conn.judge limit filter = .granted q) :
    conn.judged limit filter =
      { conn with activeFilters := insert filter.1 conn.activeFilters } := by
  simp [judged, hgranted, grantedAs]

theorem judged_refused {conn : Conn} {limit : Nat} {filter : String × QoS}
    (hrefused : ∀ q, conn.judge limit filter ≠ .granted q) : conn.judged limit filter = conn := by
  simp [judged, grantedAs_refused filter hrefused]

/-- One filter keeps the active set within the limit. -/
theorem card_judged_le {conn : Conn} {limit : Nat} (hcard : conn.activeFilters.card ≤ limit)
    (filter : String × QoS) : (conn.judged limit filter).activeFilters.card ≤ limit := by
  by_cases hgranted : ∃ q, conn.judge limit filter = .granted q
  · obtain ⟨q, hq⟩ := hgranted
    rw [judged_granted hq]
    obtain ⟨-, -, -, hmem | hroom⟩ := (conn.judge_eq_granted_iff limit filter q).mp hq
    · rwa [Finset.insert_eq_self.mpr hmem]
    · exact (Finset.card_insert_le _ _).trans hroom
  · rwa [judged_refused (not_exists.mp hgranted)]

theorem card_activeAfter_le {conn : Conn} {limit : Nat} (hcard : conn.activeFilters.card ≤ limit)
    (filters : List (String × QoS)) (n : Nat) :
    (conn.activeAfter filters (judgeAll limit filters conn) n).card ≤ limit := by
  induction filters generalizing conn n with
  | nil => simpa [activeAfter, grantedAmong] using hcard
  | cons filter rest ih =>
      cases n with
      | zero => rwa [activeAfter_zero]
      | succ n =>
          rw [judgeAll, activeAfter_succ]
          exact ih (card_judged_le hcard filter) n

theorem length_judgeAll (limit : Nat) (filters : List (String × QoS)) (conn : Conn) :
    (judgeAll limit filters conn).length = filters.length := by
  induction filters generalizing conn with
  | nil => rfl
  | cons filter rest ih => exact congrArg Nat.succ (ih _)

/-- Each filter is judged with what is active at its place in the list. -/
theorem judgeAll_eq_granted_iff (limit : Nat) {filters : List (String × QoS)} (conn : Conn)
    {i : Nat} {raw : String} {qos : QoS} (hi : filters[i]? = some (raw, qos)) (q : QoS) :
    (judgeAll limit filters conn)[i]? = some (.granted q) ↔
      q = qos ∧ conn.access.Grants limit
        (conn.activeAfter filters (judgeAll limit filters conn) i) raw := by
  induction filters generalizing conn i with
  | nil => cases hi
  | cons filter rest ih =>
      cases i with
      | zero =>
          obtain rfl : filter = (raw, qos) := Option.some.inj hi
          rw [activeAfter_zero, judgeAll, List.getElem?_cons_zero, Option.some_inj,
            judge_eq_granted_iff]
      | succ i =>
          rw [judgeAll, activeAfter_succ, List.getElem?_cons_succ]
          exact ih (conn.judged limit filter) hi

/-! ### The calls of the handler -/

/-- At most one call for a filter: the one of its subscription if it is granted. -/
theorem onFilter_eq (cfg : HandlerConfig) (conn : Conn) (id : ClientId) (filter : String × QoS) :
    conn.onFilter cfg id filter.1 filter.2 =
      Program.each
          ((grantedAs filter (conn.judge cfg.limit filter)).bind (installCall id)).toList >>=
        fun _ => pure (conn.judge cfg.limit filter,
          (grantedAs filter (conn.judge cfg.limit filter)).bind retainedJob,
          conn.judged cfg.limit filter) := by
  cases hadmits : conn.admits cfg.limit filter.1 with
  | some refused =>
      have hjudge : conn.judge cfg.limit filter = refused := by rw [judge, hadmits]
      have hrefused : ∀ q, refused ≠ .granted q := fun q heq =>
        conn.admits_ne_granted cfg.limit filter.1 q (hadmits.trans (congrArg some heq))
      rw [judged_refused (hjudge ▸ hrefused), hjudge, grantedAs_refused filter hrefused, onFilter,
        hadmits]
      rfl
  | none =>
      cases hraw : Subscription.parse filter.1 with
      | none =>
          have hjudge : conn.judge cfg.limit filter = .topicFilterInvalid := by
            rw [judge, hadmits, hraw]
          have hunparsed := mt (isSome_parse_iff filter.1).mpr (by rw [hraw]; exact nofun)
          simp only [not_or, Option.not_isSome_iff_eq_none] at hunparsed
          rw [judged_refused (by rw [hjudge]; exact nofun), hjudge, onFilter, hadmits,
            hunparsed.1, hunparsed.2]
          rfl
      | some sub =>
          have hjudge : conn.judge cfg.limit filter = .granted filter.2 := by
            rw [judge, hadmits, hraw]
          have hcall : (grantedAs filter (.granted filter.2)).bind (installCall id) =
              installCall id filter := rfl
          have hjob : (grantedAs filter (.granted filter.2)).bind retainedJob =
              retainedJob filter := rfl
          rw [judged_granted hjudge, hjudge, hcall, hjob, installCall, retainedJob, hraw, onFilter,
            hadmits, min_maxQos]
          obtain ⟨_, parsed⟩ := sub
          rcases Subscription.parse_cases hraw with ⟨group, rfl, hshared⟩ | ⟨rfl, hshared, hfilter⟩
          · rw [hshared]
            rfl
          · rw [hshared, hfilter]
            rfl

theorem onFilters_eq (cfg : HandlerConfig) (id : ClientId) (filters : List (String × QoS))
    (conn : Conn) :
    onFilters cfg id filters conn =
      let statuses := judgeAll cfg.limit filters conn
      Program.each ((grantedAmong filters statuses).filterMap (installCall id)) >>= fun _ =>
        pure (statuses, (grantedAmong filters statuses).filterMap retainedJob,
          { conn with activeFilters := conn.activeAfter filters statuses filters.length }) := by
  induction filters generalizing conn with
  | nil =>
      simp only [judgeAll, activeAfter_zero, List.length_nil]
      rfl
  | cons filter rest ih =>
      have hone : ∀ (granted : Option (String × QoS)) {B : Type} (f : String × QoS → Option B),
          granted.toList.filterMap f = (granted.bind f).toList := by
        intro granted B f
        cases granted with
        | none => rfl
        | some g => cases hg : f g <;> simp [hg]
      obtain ⟨raw, qos⟩ := filter
      rw [onFilters, onFilter_eq cfg conn id (raw, qos)]
      simp only [judgeAll, List.length_cons, activeAfter_succ, grantedAmong_cons,
        List.filterMap_append, hone, Program.each_append, bind_assoc, pure_bind, ih]
      rfl

theorem deliverJobs_eq (id : ClientId) (jobs : List (TopicFilter × QoS)) :
    deliverJobs id jobs =
      Program.each (jobs.map fun job => Call.deliverRetained id job.1 job.2) := by
  induction jobs with
  | nil => rfl
  | cons job rest ih =>
      rw [deliverJobs, ih]
      rfl

end Conn

/-- Every granted filter has its call. -/
theorem exists_installCall {conn : Conn} {limit : Nat} {filters : List (String × QoS)}
    (id : ClientId) {granted : String × QoS}
    (hgranted : granted ∈ grantedAmong filters (Conn.judgeAll limit filters conn)) :
    ∃ c, installCall id granted = some c := by
  induction filters generalizing conn with
  | nil => cases hgranted
  | cons filter rest ih =>
      rw [Conn.judgeAll, grantedAmong_cons, List.mem_append, Option.mem_toList] at hgranted
      rcases hgranted with hhere | hlater
      · by_cases hjudge : ∃ q, conn.judge limit filter = .granted q
        · obtain ⟨q, hq⟩ := hjudge
          rw [hq] at hhere
          cases hhere
          obtain ⟨-, -, hform, -⟩ := (conn.judge_eq_granted_iff limit filter q).mp hq
          obtain ⟨sub, hraw⟩ := Option.isSome_iff_exists.mp ((isSome_parse_iff _).mpr hform)
          exact ⟨_, Option.map_eq_some_iff.mpr ⟨sub, hraw, rfl⟩⟩
        · rw [grantedAs_refused filter (not_exists.mp hjudge)] at hhere
          cases hhere
      · exact ih hlater

/-- The calls for granted filters, performed alone, are the subscriptions in their order. -/
theorem exec_installs (r : Reading) {id : ClientId} {granted : List (String × QoS)}
    (hcalls : ∀ g ∈ granted, ∃ c, installCall id g = some c) (h : Hub) :
    (Program.each (granted.filterMap (installCall id))).exec (fun h c => h.perform r c) h =
      some ((), granted.foldl (fun h g => h.subscribeRaw id g.1 g.2) h) := by
  induction granted generalizing h with
  | nil => rfl
  | cons g rest ih =>
      obtain ⟨c, hcall⟩ := hcalls g List.mem_cons_self
      obtain ⟨out, hout, hsnd⟩ := Option.map_eq_some_iff.mp (perform_installCall hcall h r)
      rw [List.filterMap_cons_some hcall, List.foldl_cons, Program.each, Program.exec, hout,
        Option.bind_some, hsnd]
      exact ih (fun g' hg' => hcalls g' (List.mem_cons_of_mem _ hg')) _

/-- The handling of a SUBSCRIBE. Without a session it ends the connection. Otherwise there is
one status for each filter, in order; a filter is granted at the QoS it asks for exactly if
permissions, form and quota allow it at its place in the list. The calls are those of the
granted subscriptions, in order, then the acknowledgement, then one delivery of retained
messages for each granted filter that is not shared, in order. -/
theorem onSubscribe_spec (cfg : HandlerConfig) (conn : Conn) (packetId : Nat)
    (filters : List (String × QoS)) :
    (conn.sessionId = none → conn.onSubscribe cfg packetId filters = pure (.leave false, conn)) ∧
    ∀ id, conn.sessionId = some id → ∃ statuses : List SubscribeStatus,
      let granted := grantedAmong filters statuses
      let active := conn.activeAfter filters statuses
      let after : Conn := { conn with activeFilters := active filters.length }
      statuses.length = filters.length ∧
      (∀ i raw qos, filters[i]? = some (raw, qos) → ∀ q,
        statuses[i]? = some (.granted q) ↔
          q = qos ∧ conn.access.Grants cfg.limit (active i) raw) ∧
      (conn.onSubscribe cfg packetId filters = do
        Program.each (granted.filterMap (installCall id))
        let written : Bool ← call (.send (.subscribeAck packetId statuses))
        if written then
          Program.each (granted.filterMap (retainedCall id))
          pure (.next, after)
        else pure (.leave false, after)) ∧
      (∀ g ∈ granted, ∃ c, installCall id g = some c ∧ ∀ (h : Hub) (r : Reading),
        (h.perform r c).map Prod.snd = some (h.subscribeRaw id g.1 g.2)) ∧
      (∀ (h : Hub) (r : Reading),
        (Program.each (granted.filterMap (installCall id))).exec (fun h c => h.perform r c) h =
          some ((), granted.foldl (fun h g => h.subscribeRaw id g.1 g.2) h)) ∧
      (conn.activeFilters.card ≤ cfg.limit → ∀ n, (active n).card ≤ cfg.limit) := by
  refine ⟨fun hnone => by rw [Conn.onSubscribe, hnone], fun id hid => ?_⟩
  have hcalls : ∀ g ∈ grantedAmong filters (Conn.judgeAll cfg.limit filters conn),
      ∃ c, installCall id g = some c := fun g hg => exists_installCall id hg
  refine ⟨Conn.judgeAll cfg.limit filters conn, Conn.length_judgeAll .., fun i raw qos hi q =>
    Conn.judgeAll_eq_granted_iff cfg.limit conn hi q, ?_, fun g hg => ?_, fun h r =>
    exec_installs r hcalls h, fun hcard n => Conn.card_activeAfter_le hcard filters n⟩
  · simp only [Conn.onSubscribe, hid, Conn.onFilters_eq, bind_assoc, pure_bind,
      Conn.deliverJobs_eq, List.map_filterMap]
    rfl
  · obtain ⟨c, hcall⟩ := hcalls g hg
    exact ⟨c, hcall, perform_installCall hcall⟩

/-- Two filters with room for one: the first fills the quota, the second finds it full. -/
theorem onSubscribe_spec_full :
    let cfg : HandlerConfig := ⟨fun _ => none, 1⟩
    let conn : Conn := { Conn.start "p" with sessionId := some 7, access := ⟨[], ["#"]⟩ }
    let filters := [("t", QoS.atLeastOnce), ("u", QoS.atMostOnce)]
    ∃ statuses : List SubscribeStatus,
      let granted := grantedAmong filters statuses
      let after : Conn := { conn with activeFilters := conn.activeAfter filters statuses 2 }
      statuses.length = 2 ∧ statuses[0]? = some (.granted .atLeastOnce) ∧
        (∀ q, statuses[1]? ≠ some (.granted q)) ∧
        (conn.onSubscribe cfg 1 filters = do
          Program.each (granted.filterMap (installCall 7))
          let written : Bool ← call (.send (.subscribeAck 1 statuses))
          if written then
            Program.each (granted.filterMap (retainedCall 7))
            pure (.next, after)
          else pure (.leave false, after)) ∧
        after.activeFilters.card ≤ 1 := by
  intro cfg conn filters
  obtain ⟨statuses, hlength, hgranted, hprogram, -, -, hcard⟩ :=
    (onSubscribe_spec cfg conn 1 filters).2 7 rfl
  have hfirst : statuses[0]? = some (.granted .atLeastOnce) := by
    refine (hgranted 0 "t" .atLeastOnce rfl .atLeastOnce).mpr ⟨rfl, by decide +kernel, ?_, ?_⟩
    · exact Or.inr (by decide +kernel)
    · exact Or.inr (by rw [Conn.activeAfter_zero]; decide)
  refine ⟨statuses, hlength, hfirst, fun q hq => ?_, hprogram, hcard (by decide) 2⟩
  obtain ⟨-, -, -, hroom⟩ := (hgranted 1 "u" .atMostOnce rfl q).mp hq
  have hactive : conn.activeAfter filters statuses 1 = ({"t"} : Finset String) := by
    cases statuses with
    | nil => cases hfirst
    | cons status rest =>
        cases Option.some.inj hfirst
        rfl
  rw [hactive] at hroom
  exact absurd hroom (by decide)

end Relay
