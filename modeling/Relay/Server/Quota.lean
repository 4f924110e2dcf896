import Relay.Server.Authorization
import Relay.Server.Coverage

/-! # The subscription quota

The limit is per client, but it is checked against the filters that one connection
has seen, while the subscriptions live in the session. As long as a connection that
subscribes knows of every subscription its session has, no client exceeds the
limit: not through later connections, and not through restarts, since the rows of
a client never name more than its session holds.
-/

namespace Relay

/-! ## Counting subscriptions -/

namespace Router

def countOf (r : Router) (id : ClientId) : Nat := (r.keys.filter fun key => key.client = id).length

def keysOf (r : Router) (id : ClientId) : Finset (Option String × String) :=
  ((r.keys.filter fun key => key.client = id).map fun key => (key.group, key.filter)).toFinset

theorem mem_keysOf {r : Router} {id : ClientId} {key : Option String × String} :
    key ∈ r.keysOf id ↔ r.granted ⟨id, key.1, key.2⟩ ≠ none := by
  rw [granted_ne_none_iff]
  simp only [keysOf, List.mem_toFinset, List.mem_map, List.mem_filter, decide_eq_true_eq]
  constructor
  · rintro ⟨k, ⟨hk, rfl⟩, rfl⟩
    exact hk
  · exact fun hk => ⟨_, ⟨hk, rfl⟩, rfl⟩

/-- Counting lists and counting keys is the same in a well-formed router. -/
theorem WF.card_keysOf {r : Router} (hwf : r.WF) (id : ClientId) :
    (r.keysOf id).card = r.countOf id := by
  have hnodup : ((r.keys.filter fun key => key.client = id).map
      fun key => (key.group, key.filter)).Nodup := by
    refine List.Nodup.map_on ?_ (hwf.nodup_keys.filter _)
    rintro ⟨c, g, f⟩ hk ⟨c', g', f'⟩ hk' heq
    simp only [List.mem_filter, decide_eq_true_eq] at hk hk'
    obtain ⟨rfl, rfl⟩ := Prod.mk.inj heq
    rw [hk.2, hk'.2]
  rw [keysOf, List.toFinset_card_of_nodup hnodup, List.length_map, countOf]

end Router

/-! ## The router stays well formed -/

namespace Hub

theorem wf_discard {h : Hub} (hwf : h.router.WF) (id : ClientId) : (h.discard id).router.WF := by
  have hrouter : (h.discard id).router = h.router.removeClient id := by
    unfold discard
    split <;> rfl
  rw [hrouter]
  exact hwf.removeClient id

theorem wf_connect {h h' : Hub} (hwf : h.router.WF) {clientId : String} {cleanStart : Bool}
    {expirySecs now : Nat} {c : Connected}
    (hconnect : h.connect clientId cleanStart expirySecs now = some (c, h')) : h'.router.WF := by
  rcases connect_cases hconnect with
    ⟨-, -, rfl⟩ | ⟨id, -, -, -, rfl⟩ | ⟨id, s, -, -, -, -, rfl⟩
  · rw [(still_persistMeta _ clientId expirySecs).router]
    exact hwf
  · rw [(still_persistMeta _ clientId expirySecs).router]
    exact hwf.removeClient id
  · rw [(still_persistMeta _ clientId expirySecs).router]
    exact hwf

theorem wf_act {h h' : Hub} (hwf : h.router.WF) {a : Section} (hact : h.act a = some h') :
    h'.router.WF := by
  cases hmoves : a.moves with
  | true =>
      cases a with
      | connect clientId cleanStart expirySecs now =>
          obtain ⟨⟨c, h''⟩, hconnect, rfl⟩ := Option.map_eq_some_iff.mp hact
          exact wf_connect hwf hconnect
      | detach id generation =>
          cases hact
          rcases h.detach_cases id generation with ⟨heq, -⟩ | ⟨s, -, -, ⟨-, heq⟩ | ⟨-, timers, heq⟩⟩
          · rw [heq]
            exact hwf
          · rw [heq]
            refine wf_discard ?_ id
            exact hwf
          · rw [heq]
            exact hwf
      | expire id generation =>
          cases hact
          rcases h.expire_cases id generation with ⟨heq, -⟩ | ⟨s, -, -, heq⟩
          · rw [heq]
            exact hwf
          · rw [heq]
            refine wf_discard ?_ id
            exact hwf
      | _ => cases hmoves
  | false =>
      cases hbackground : a.background with
      | true =>
          rcases router_background hbackground hmoves hact with hrouter | ⟨topic, hrouter⟩
          · rw [hrouter]
            exact hwf
          · rw [hrouter]
            exact hwf.route topic
      | false =>
          cases a with
          | subscribe id filter qos =>
              cases hact
              exact hwf.subscribe id filter qos
          | subscribeShared group id filter qos =>
              cases hact
              exact hwf.subscribeShared id filter qos group
          | unroute id raw =>
              cases hact
              simp only [unroute]
              split
              · exact hwf.unsubscribeShared id _ _
              · exact hwf.unsubscribe id raw
          | connect => cases hmoves
          | detach => cases hmoves
          | _ => cases hbackground

theorem wf_reaches {h h' : Hub} (hwf : h.router.WF) (hreaches : h.Reaches h') : h'.router.WF := by
  obtain ⟨sections, hrun⟩ := hreaches
  exact Machine.run_invariant (fun _ _ _ hwf hact => wf_act hwf hact) hwf hrun

end Hub

/-- Every step of the broker is a run of sections. -/
theorem Broker.reaches_step {b b' : Broker} {st : BrokerStep} (hstep : b.step st = some b') :
    b.hub.Reaches b'.hub := by
  have hfinish : ∀ c conn, b.hub.Reaches (b.finish c conn).hub := by
    intro c conn
    unfold finish
    cases conn.sessionId with
    | none => exact .refl b.hub
    | some id => exact .single (.detach id conn.generation) rfl
  cases stepped_of_step hstep with
  | accept => exact .refl b.hub
  | @connect c packet acl now conn out _ _ hhub =>
      refine .single (.connect (packet.session conn.peer).1 (packet.session conn.peer).2
        packet.expirySecs now) ?_
      exact congrArg (Option.map Prod.snd) hhub
  | @subscribe c raw qos conn id _ _ =>
      dsimp only
      rw [Hub.subscribeOne_eq]
      split
      · exact Hub.reaches_subscribeRaw b.hub id raw _
      · exact .refl b.hub
  | @unsubscribe c raw conn id _ _ => exact Hub.reaches_unsubscribe b.hub id raw
  | finish => exact hfinish _ _
  | background _ hact => exact .single _ hact

/-! ## Stores within the limit -/

/-- The rows of a client name at most so many subscriptions. -/
structure Storage.Within (limit : Nat) (st : Storage) : Prop extends st.Marked where
  bounded : ∀ client, CleanId client → ∃ keys : Finset (Option String × String),
    keys.card ≤ limit ∧ ∀ raw key, (st.record client).subs raw ≠ none →
      routeKey raw = some key → key ∈ keys

/-- The write adds no subscription row, and no session row without an interval or
under an identifier with a separator. -/
def PersistOp.Safe : PersistOp → Prop
  | .putSession clientId expirySecs => 0 < expirySecs ∧ CleanId clientId
  | .removeSession clientId => CleanId clientId
  | .putSubscription _ _ _ => False
  | .removeSubscription clientId _ => CleanId clientId
  | _ => True

namespace PersistOp.Safe

variable {op : PersistOp} (hop : op.Safe)

include hop

theorem clean : op.Clean := by
  cases op with
  | removeSession => exact hop
  | putSubscription => exact hop.elim
  | removeSubscription => exact hop
  | _ => trivial

theorem lasting : op.Lasting := by
  cases op with
  | putSession clientId expirySecs => exact lasting_putSession clientId hop.1
  | removeSession clientId => exact lasting_removeSession clientId
  | _ => exact fun _ _ hrow => hrow

/-- A session row afterwards is an old one or a clean one. -/
theorem expiryRow {client : String} {row : Option Nat}
    (hrow : op.expiryRow client row ≠ none) : row ≠ none ∨ CleanId client := by
  cases op with
  | putSession clientId expirySecs =>
      simp only [PersistOp.expiryRow] at hrow
      split at hrow
      next heq => exact Or.inr (heq ▸ hop.2)
      next => exact Or.inl hrow
  | removeSession clientId =>
      simp only [PersistOp.expiryRow] at hrow
      split at hrow
      · exact absurd rfl hrow
      · exact Or.inl hrow
  | _ => exact Or.inl hrow

/-- A subscription row afterwards is an old one, and a session row stays with it. -/
theorem subscriptionRow {client raw : String} {row : Option Bytes}
    (hrow : op.subscriptionRow client raw row ≠ none) :
    row ≠ none ∧ ∀ secs : Option Nat, secs ≠ none → op.expiryRow client secs ≠ none := by
  cases op with
  | putSession clientId expirySecs =>
      refine ⟨hrow, fun secs hsecs => ?_⟩
      simp only [PersistOp.expiryRow]
      split
      · exact Option.some_ne_none _
      · exact hsecs
  | removeSession clientId =>
      simp only [PersistOp.subscriptionRow] at hrow
      split at hrow
      · exact absurd rfl hrow
      next hne =>
        refine ⟨hrow, fun secs hsecs => ?_⟩
        simp only [PersistOp.expiryRow, if_neg hne]
        exact hsecs
  | putSubscription => exact hop.elim
  | removeSubscription clientId raw' =>
      simp only [PersistOp.subscriptionRow] at hrow
      split at hrow
      · exact absurd rfl hrow
      · exact ⟨hrow, fun _ hsecs => hsecs⟩
  | _ => exact ⟨hrow, fun _ hsecs => hsecs⟩

end PersistOp.Safe

namespace Storage.Within

variable {limit : Nat} {st : Storage}

theorem safe (hst : st.Within limit) {op : PersistOp} (hop : op.Safe) :
    (st.applyPersistOp op).Within limit := by
  have hrecord : ∀ client, CleanId client →
      (st.applyPersistOp op).record client = op.onRecord client (st.record client) :=
    fun client hclient => st.record_applyPersistOp hop.clean hclient
  refine ⟨⟨hop.lasting.apply hst.lasting, ?_, ?_⟩, ?_⟩
  · intro client hexpiry
    have hrow : op.expiryRow client st.sessions[client]? ≠ none := by
      rw [← st.sessions_applyPersistOp op client]
      exact hexpiry
    rcases hop.expiryRow hrow with hold | hclient
    · exact hst.clean client hold
    · exact hclient
  · intro client raw hclient hraw
    rw [hrecord client hclient] at hraw ⊢
    obtain ⟨hold, hkeeps⟩ := hop.subscriptionRow hraw
    exact hkeeps _ (hst.marked client raw hclient hold)
  · intro client hclient
    obtain ⟨keys, hcard, hkeys⟩ := hst.bounded client hclient
    refine ⟨keys, hcard, fun raw key hraw hkey => ?_⟩
    rw [hrecord client hclient] at hraw
    exact hkeys raw key (hop.subscriptionRow hraw).1 hkey

/-- A subscription row for a client with a session row, if the rows it then has name
few enough subscriptions. -/
theorem put (hst : st.Within limit) {client raw : String} {qos : QoS} (hclient : CleanId client)
    (hexpiry : (st.record client).expiry ≠ none) {keys : Finset (Option String × String)}
    (hcard : keys.card ≤ limit)
    (hkeys : ∀ raw' key,
      ((st.applyPersistOp (.putSubscription client raw qos)).record client).subs raw' ≠ none →
        routeKey raw' = some key → key ∈ keys) :
    (st.applyPersistOp (.putSubscription client raw qos)).Within limit := by
  have hop : (PersistOp.putSubscription client raw qos).Clean := hclient
  have habout : (PersistOp.putSubscription client raw qos).About client := rfl
  have hrecord : ∀ other, CleanId other → other ≠ client →
      (st.applyPersistOp (.putSubscription client raw qos)).record other = st.record other := by
    intro other hother hne
    rw [st.record_applyPersistOp hop hother, PersistOp.onRecord_of_ne habout hne]
  refine ⟨⟨hst.lasting, hst.clean, ?_⟩, ?_⟩
  · intro other raw' hother hraw
    by_cases heq : other = client
    · rw [heq]
      exact hexpiry
    · rw [hrecord other hother heq] at hraw ⊢
      exact hst.marked other raw' hother hraw
  · intro other hother
    by_cases heq : other = client
    · rw [heq]
      exact ⟨keys, hcard, hkeys⟩
    · rw [hrecord other hother heq]
      exact hst.bounded other hother

end Storage.Within

/-! ## What a connection knows of its session -/

namespace Conn

/-- Every subscription of the session is one of the filters the connection counts. -/
def Knows (conn : Conn) (r : Router) (id : ClientId) : Prop :=
  ∀ key ∈ r.keysOf id, ∃ raw ∈ conn.activeFilters, routeKey raw = some key

/-- A new filter is admitted below the limit only. -/
theorem card_insert_of_admits {conn : Conn} {limit : Nat} {raw : String}
    (hadmits : conn.admits limit raw = none) (hcard : conn.activeFilters.card ≤ limit) :
    (insert raw conn.activeFilters).card ≤ limit := by
  unfold admits at hadmits
  split at hadmits
  · cases hadmits
  · split at hadmits
    · cases hadmits
    next hroom =>
      by_cases hmem : raw ∈ conn.activeFilters
      · rw [Finset.insert_eq_of_mem hmem]
        exact hcard
      · rw [Finset.card_insert_of_notMem hmem]
        have hlt : ¬ limit ≤ conn.activeFilters.card := fun hle => hroom ⟨hmem, hle⟩
        omega

theorem card_subscribeOne {conn : Conn} {limit : Nat} (hcard : conn.activeFilters.card ≤ limit)
    (h : Hub) (id : ClientId) (raw : String) (qos : QoS) :
    (conn.subscribeOne limit h id raw qos).2.2.activeFilters.card ≤ limit := by
  unfold subscribeOne
  cases hadmits : conn.admits limit raw with
  | some refused => exact hcard
  | none =>
      have hinsert := card_insert_of_admits hadmits hcard
      cases SharedSubscription.parse raw with
      | some shared => exact hinsert
      | none =>
          cases TopicFilter.parse raw with
          | some filter => exact hinsert
          | none => exact hcard

/-- Distinct subscriptions come from distinct filter strings. -/
theorem Knows.card_keysOf_le {conn : Conn} {r r' : Router} {id : ClientId}
    (hknows : conn.Knows r id) {raw : String}
    (hkeys : ∀ key ∈ r'.keysOf id, key ∈ r.keysOf id ∨ routeKey raw = some key) :
    (r'.keysOf id).card ≤ (insert raw conn.activeFilters).card := by
  have hsub : (r'.keysOf id).image some ⊆ (insert raw conn.activeFilters).image routeKey := by
    intro k hk
    obtain ⟨key, hkey, rfl⟩ := Finset.mem_image.mp hk
    rcases hkeys key hkey with hold | hraw
    · obtain ⟨raw', hmem, hraw'⟩ := hknows key hold
      exact Finset.mem_image.mpr ⟨raw', Finset.mem_insert_of_mem hmem, hraw'⟩
    · exact Finset.mem_image.mpr ⟨raw, Finset.mem_insert_self raw _, hraw⟩
  calc (r'.keysOf id).card
      = ((r'.keysOf id).image some).card :=
        (Finset.card_image_of_injective _ (Option.some_injective _)).symm
    _ ≤ ((insert raw conn.activeFilters).image routeKey).card := Finset.card_le_card hsub
    _ ≤ (insert raw conn.activeFilters).card := Finset.card_image_le

end Conn

/-! ## Runs -/

namespace Broker

def WithinQuota (b : Broker) : Prop := ∀ id, b.hub.router.countOf id ≤ b.limit

/-- A connection that subscribes knows the subscriptions of its session, and accepted
client identifiers are clean. -/
def Informed (b : Broker) : LifeStep → Prop
  | .step st =>
      (∀ accepted ∈ b.accepted? st, CleanId accepted.2) ∧
        match st with
        | .subscribe c _ _ =>
            ∀ conn ∈ b.conns.lookup c, ∀ id ∈ conn.sessionId, conn.Knows b.hub.router id
        | _ => True
  | .restart .. => True

/-- The subscriptions, the filters that connections count and the rows of every
client stay within the limit. -/
structure Accounted (b : Broker) : Prop where
  covered : b.hub.Covered
  wf : b.hub.router.WF
  store : ∀ d ∈ b.hub.disk, d.EachCrash (Storage.Within b.limit)
  filters : ∀ c conn, b.conns.lookup c = some conn → conn.activeFilters.card ≤ b.limit
  quota : ∀ id, (b.hub.router.keysOf id).card ≤ b.limit

theorem Accounted.withinQuota {b : Broker} (hb : b.Accounted) : b.WithinQuota := by
  intro id
  rw [← hb.wf.card_keysOf]
  exact hb.quota id

/-- The filters that the connections count stay within the limit, which no step
changes. -/
theorem filters_step {b b' : Broker}
    (hfilters : ∀ c conn, b.conns.lookup c = some conn → conn.activeFilters.card ≤ b.limit)
    {st : BrokerStep} (hstep : b.step st = some b') :
    b'.limit = b.limit ∧
      ∀ c conn, b'.conns.lookup c = some conn → conn.activeFilters.card ≤ b.limit := by
  have hinsert : ∀ (c : Nat) (attached : Conn), attached.activeFilters.card ≤ b.limit →
      ∀ c' conn, (b.conns.insert c attached).lookup c' = some conn →
        conn.activeFilters.card ≤ b.limit := by
    intro c attached hcard c' conn hconn
    rw [AssocMap.lookup_insert] at hconn
    split at hconn
    · cases hconn
      exact hcard
    · exact hfilters c' conn hconn
  have herase : ∀ (c : Nat) c' conn, (b.conns.erase c).lookup c' = some conn →
      conn.activeFilters.card ≤ b.limit := by
    intro c c' conn hconn
    rw [AssocMap.lookup_erase] at hconn
    split at hconn
    · cases hconn
    · exact hfilters c' conn hconn
  cases stepped_of_step hstep with
  | accept => exact ⟨rfl, hinsert _ _ (Nat.zero_le _)⟩
  | @connect c packet acl now conn out hconn _ _ =>
      exact ⟨rfl, hinsert _ _ (hfilters c conn hconn)⟩
  | subscribe hconn _ =>
      exact ⟨rfl, hinsert _ _ (Conn.card_subscribeOne (hfilters _ _ hconn) _ _ _ _)⟩
  | unsubscribe hconn _ =>
      refine ⟨rfl, hinsert _ _ ?_⟩
      exact (Finset.card_le_card (Finset.erase_subset _ _)).trans (hfilters _ _ hconn)
  | finish => exact ⟨rfl, herase _⟩
  | background => exact ⟨rfl, hfilters⟩

/-- A subscription that is new after a step is one that the subscribing connection
admitted, knowing all the others. -/
theorem Accounted.quota_step {b b' : Broker} (hb : b.Accounted) {st : BrokerStep}
    (hinformed : b.Informed (.step st)) (hstep : b.step st = some b') (id : ClientId) :
    (b'.hub.router.keysOf id).card ≤ b.limit := by
  have hkeys : ∀ key ∈ b'.hub.router.keysOf id, key ∈ b.hub.router.keysOf id ∨
      ∃ conn qos, b.installs st = some (conn, ⟨id, key.1, key.2⟩, qos) := by
    intro key hkey
    rw [Router.mem_keysOf] at hkey ⊢
    exact granted_step hstep hkey
  by_cases hnew : ∃ conn key qos, b.installs st = some (conn, key, qos) ∧ key.client = id
  · obtain ⟨conn, key, qos, hinstalls, rfl⟩ := hnew
    obtain ⟨c, raw, q, rfl, hconn, hid, hadmits, hraw⟩ := exists_of_installs hinstalls
    have hknows : conn.Knows b.hub.router key.client := hinformed.2 conn hconn key.client hid
    refine (hknows.card_keysOf_le fun key' hkey' => ?_).trans
      (Conn.card_insert_of_admits hadmits (hb.filters c conn hconn))
    rcases hkeys key' hkey' with hold | ⟨conn', qos', hinstalls'⟩
    · exact Or.inl hold
    · rw [hinstalls] at hinstalls'
      have hsame := (Prod.mk.inj (Prod.mk.inj (Option.some.inj hinstalls')).2).1
      rw [hsame] at hraw
      exact Or.inr hraw
  · -- nothing is installed for this client, so its subscriptions can only become fewer
    have hsub : b'.hub.router.keysOf id ⊆ b.hub.router.keysOf id := by
      intro key hkey
      rcases hkeys key hkey with hold | ⟨conn, qos, hinstalls⟩
      · exact hold
      · exact absurd ⟨conn, _, qos, hinstalls, rfl⟩ hnew
    exact (Finset.card_le_card hsub).trans (hb.quota id)

theorem Accounted.clean_leave {b : Broker} (hb : b.Accounted) (id : ClientId) :
    ∀ s ∈ b.hub.sessions.byId.lookup id, CleanId s.clientId := by
  intro s hs
  refine hb.covered.clean id s.clientId s.expirySecs ?_
  rw [SessionTable.lease, SessionTable.holder, Option.mem_def.mp hs]
  rfl

/-- Safe writes keep the store within the limit whenever a crash comes. -/
theorem Accounted.store_of_queuesAll {b : Broker} (hb : b.Accounted) {h' : Hub}
    (hqueues : Hub.QueuesAll PersistOp.Safe b.hub h') :
    ∀ d ∈ h'.disk, d.EachCrash (Storage.Within b.limit) := by
  intro d' hd'
  obtain ⟨ops, hops, hall⟩ := hqueues
  rw [hops.disk] at hd'
  obtain ⟨d, hd, rfl⟩ := Option.map_eq_some_iff.mp hd'
  exact (hb.store d hd).append fun op hop st hst => hst.safe (hall op hop)

/-- The row of a new subscription is one more of those that the session holds, and
these are within the limit. -/
theorem Accounted.store_put {b : Broker} (hb : b.Accounted) {id : ClientId} {client raw : String}
    {key : Option String × String} {qos : QoS} {h' : Hub}
    (hdurable : b.hub.durableClient id = some client)
    (hedit : Hub.Edit b.hub h' id raw key (some qos)) (hcov : h'.Covered)
    (hquota : (h'.router.keysOf id).card ≤ b.limit) :
    ∀ d ∈ h'.disk, d.EachCrash (Storage.Within b.limit) := by
  obtain ⟨d, hd⟩ := Option.isSome_iff_exists.mp hb.covered.disk
  have hdisk : h'.disk = some (d.enqueue (.putSubscription client raw qos)) := by
    have hput := hedit.disk
    rw [hdurable] at hput
    simpa only [Hub.enqueue, hd, Option.map_some, PersistOp.subscription] using hput
  obtain ⟨secs, hid, hpos⟩ := Hub.durableClient_iff.mp hdurable
  have hclient := hb.covered.clean id client secs hid
  rw [hdisk]
  rintro _ ⟨⟩
  have hstore := hb.store d hd
  refine hstore.enqueue (hstore.settled.put hclient ?_ hquota ?_)
  · have hrow := hb.covered.marked id client secs hid hpos
    rwa [Hub.record, hd] at hrow
  · intro raw' key' hraw' hkey'
    have hrow : (h'.record client).subs raw' ≠ none := by
      rw [Hub.record, hdisk]
      dsimp only
      rw [Disk.settled_enqueue]
      exact hraw'
    obtain ⟨i, n, hi, -, hheld⟩ := hcov.rows client raw' key' hclient hrow hkey'
    rw [hedit.sessions] at hi
    rw [hb.covered.consistent.lease_unique hi hid] at hheld
    exact Router.mem_keysOf.mpr hheld

theorem Accounted.store_subscribeOne {b : Broker} (hb : b.Accounted) (conn : Conn) (id : ClientId)
    (raw : String) (qos : QoS) {h' : Hub}
    (hh' : (conn.subscribeOne b.limit b.hub id raw qos).2.1 = h') (hcov : h'.Covered)
    (hquota : (h'.router.keysOf id).card ≤ b.limit) :
    ∀ d ∈ h'.disk, d.EachCrash (Storage.Within b.limit) := by
  rw [Hub.subscribeOne_eq] at hh'
  split at hh'
  · cases hkey : routeKey raw with
    | none =>
        rw [Hub.subscribeRaw_of_none b.hub id _ hkey] at hh'
        subst hh'
        exact hb.store
    | some key =>
        have hedit := Hub.edit_subscribeRaw b.hub id (min qos maxQos) hkey
        rw [hh'] at hedit
        cases hdurable : b.hub.durableClient id with
        | none =>
            have hdisk := hedit.disk
            rw [hdurable] at hdisk
            rw [hdisk]
            exact hb.store
        | some client => exact hb.store_put hdurable hedit hcov hquota
  · subst hh'
    exact hb.store

/-- The rows are within the limit at every crash point: rows follow the subscriptions. -/
theorem Accounted.store_step {b b' : Broker} (hb : b.Accounted) {st : BrokerStep}
    (hinformed : b.Informed (.step st)) (hwrite : ∀ op ∈ st.write?, op.Aside)
    (hstep : b.step st = some b') (hcov : b'.hub.Covered)
    (hquota : ∀ id, (b'.hub.router.keysOf id).card ≤ b.limit) :
    ∀ d ∈ b'.hub.disk, d.EachCrash (Storage.Within b.limit) := by
  by_cases hwork : st = .background .work
  · subst hwork
    obtain ⟨h, hact, rfl⟩ := Option.map_eq_some_iff.mp hstep
    obtain ⟨d, d₁, hd, hround, rfl⟩ := Hub.exists_of_work hact
    rintro _ ⟨⟩
    exact (hb.store d hd).work hround
  by_cases hsubscribe : ∃ c raw qos, st = .subscribe c raw qos
  · obtain ⟨c, raw, qos, rfl⟩ := hsubscribe
    obtain ⟨conn, hconn, hrest⟩ := Option.bind_eq_some_iff.mp hstep
    split at hrest
    · cases hrest
      exact hb.store_of_queuesAll (queuesAll_finish c conn hb.clean_leave)
    next id _ =>
      cases hrest
      exact hb.store_subscribeOne conn id raw qos rfl hcov (hquota id)
  · refine hb.store_of_queuesAll (queuesAll_step ?_ ?_ hb.clean_leave ?_ ?_ ?_ hwrite hwork hstep)
    · exact fun c client haccepted secs hpos => ⟨hpos, hinformed.1 (c, client) haccepted⟩
    · exact fun c client haccepted => hinformed.1 (c, client) haccepted
    · exact fun c raw qos heq => absurd ⟨c, raw, qos, heq⟩ hsubscribe
    · intro id raw client hclient
      obtain ⟨secs, hid, -⟩ := Hub.durableClient_iff.mp hclient
      exact hb.covered.clean id client secs hid
    · intro op haside
      cases op with
      | putSession => exact haside.elim
      | removeSession => exact haside.elim
      | putSubscription => exact haside.elim
      | removeSubscription => exact haside.elim
      | _ => trivial

/-- A step within the quota leaves the broker within it. -/
theorem Accounted.step {b b' : Broker} (hb : b.Accounted) {st : BrokerStep}
    (hinformed : b.Informed (.step st)) (hwrite : ∀ op ∈ st.write?, op.Aside)
    (hstep : b.step st = some b') : b'.Accounted := by
  obtain ⟨hlimit, hfilters⟩ := filters_step hb.filters hstep
  have hcov := covered_step hb.covered hinformed.1 hwrite hstep
  have hquota := hb.quota_step hinformed hstep
  refine ⟨hcov, Hub.wf_reaches hb.wf (reaches_step hstep), ?_, ?_, ?_⟩
  · rw [hlimit]
    exact hb.store_step hinformed hwrite hstep hcov hquota
  · rw [hlimit]
    exact hfilters
  · rw [hlimit]
    exact hquota

end Broker

/-! ## Restarts -/

theorem Storage.within_empty (limit : Nat) : Storage.empty.Within limit := by
  have hrecord : ∀ client, Storage.empty.record client = .empty := by
    intro client
    simp [Storage.record, Storage.empty, ClientRecord.empty]
  refine ⟨⟨?_, ?_, ?_⟩, ?_⟩
  · intro client secs hsecs
    rw [Option.mem_def, Storage.empty, Std.TreeMap.getElem?_emptyc] at hsecs
    cases hsecs
  · intro client hexpiry
    rw [hrecord] at hexpiry
    exact absurd rfl hexpiry
  · intro client raw _ hraw
    rw [hrecord] at hraw
    exact absurd rfl hraw
  · intro client _
    refine ⟨∅, Nat.zero_le _, fun raw key hraw => ?_⟩
    rw [hrecord] at hraw
    exact absurd rfl hraw

namespace Hub

theorem wf_restoreSubscriptions {router : Router} (hwf : router.WF) (id : ClientId)
    (subs : List (String × QoS)) : (subs.foldl (restoreSubscription id) router).WF := by
  induction subs generalizing router with
  | nil => exact hwf
  | cons sub rest ih =>
      refine ih ?_
      unfold restoreSubscription
      split
      · exact hwf.subscribeShared id _ _ _
      · split
        · exact hwf.subscribe id _ _
        · exact hwf

theorem wf_new (st : Storage) (retry : RetryConfig) (eventLogMax now : Nat) :
    (new (some st) retry eventLogMax now).router.WF := by
  have hfold : ∀ (sessions : List PersistedSession) (l : Loading), l.router.WF →
      (sessions.foldl (loadSession st retry now) l).router.WF := by
    intro sessions
    induction sessions with
    | nil => exact fun _ hwf => hwf
    | cons ps rest ih =>
        intro l hwf
        exact ih _ (wf_restoreSubscriptions hwf _ ps.subscriptions)
  exact hfold st.loadSessions _ Router.wf_new

/-- A started hub holds for a client what the rows of the client name. -/
theorem card_keysOf_new {st : Storage} {limit : Nat} (hst : st.Within limit)
    (retry : RetryConfig) (eventLogMax now : Nat) (id : ClientId) :
    ((new (some st) retry eventLogMax now).router.keysOf id).card ≤ limit := by
  have hgranted := (rebuilt_new st retry eventLogMax now).granted id
  cases hslot : slot st.loadSessions id with
  | none =>
      have hempty : (new (some st) retry eventLogMax now).router.keysOf id = ∅ := by
        refine Finset.eq_empty_of_forall_notMem fun key hkey => ?_
        rw [Router.mem_keysOf, hgranted key, hslot] at hkey
        exact hkey rfl
      rw [hempty]
      exact Nat.zero_le limit
  | some ps =>
      have hps : ps ∈ st.loadSessions := mem_of_slot hslot
      have hclean : CleanId ps.clientId := by
        refine hst.clean ps.clientId ?_
        rw [Storage.record, Storage.sessions_of_mem hps]
        exact Option.some_ne_none _
      obtain ⟨keys, hcard, hkeys⟩ := hst.bounded ps.clientId hclean
      refine (Finset.card_le_card fun key hkey => ?_).trans hcard
      rw [Router.mem_keysOf, hgranted key, hslot, Option.bind_some,
        PersistedSession.held_ne_none_iff hps hclean] at hkey
      obtain ⟨raw, hrow, hraw⟩ := hkey
      exact hkeys raw key hrow hraw

end Hub

namespace Broker

/-- A store within the limit starts a broker within it. -/
theorem accounted_new {st : Storage} {limit : Nat} (hst : st.Within limit) (retry : RetryConfig)
    (eventLogMax now : Nat) : (new (some st) retry eventLogMax limit now).Accounted := by
  refine ⟨Hub.covered_new hst.toMarked retry eventLogMax now, Hub.wf_new st retry eventLogMax now,
    ?_, ?_, Hub.card_keysOf_new hst retry eventLogMax now⟩
  · -- nothing is queued at startup
    rintro _ ⟨⟩ n
    rw [Disk.crashed, List.take_nil]
    exact hst
  · intro c conn hconn
    cases hconn

theorem Accounted.live {b b' : Broker} (hb : b.Accounted) {st : LifeStep}
    (hinformed : b.Informed st) (hlive : b.live st = some b') : b'.Accounted := by
  cases st with
  | step st =>
      simp only [Broker.live] at hlive
      split at hlive
      next hwrite => exact hb.step hinformed hwrite hlive
      · cases hlive
  | restart applied retry eventLogMax now =>
      cases hlive
      obtain ⟨d, hd⟩ := Option.isSome_iff_exists.mp hb.covered.disk
      rw [hd, Option.map_some]
      exact accounted_new (hb.store d hd applied) retry eventLogMax now

/-- While connections know what their sessions hold, no client exceeds its quota,
across resumed sessions and restarts. -/
theorem withinQuota_of_informed (retry : RetryConfig) (eventLogMax limit now : Nat)
    (steps : List LifeStep)
    (hinformed : Machine.Meets Broker.live Informed
      (new (some Storage.empty) retry eventLogMax limit now) steps) :
    Machine.Always Broker.live WithinQuota (new (some Storage.empty) retry eventLogMax limit now)
      steps :=
  Machine.always_of_meets Accounted Informed (fun _ _ _ hb hok hlive => hb.live hok hlive)
    (fun _ hb => hb.withinQuota)
    (accounted_new (Storage.within_empty limit) retry eventLogMax now) hinformed

instance (conn : Conn) (r : Router) (id : ClientId) : Decidable (conn.Knows r id) :=
  inferInstanceAs (Decidable (∀ key ∈ r.keysOf id, ∃ raw ∈ conn.activeFilters,
    routeKey raw = some key))

instance (b : Broker) : (st : LifeStep) → Decidable (b.Informed st)
  | .step (.accept _ _) => inferInstanceAs (Decidable (_ ∧ True))
  | .step (.connect _ _ _ _) => inferInstanceAs (Decidable (_ ∧ True))
  | .step (.subscribe c raw qos) =>
      inferInstanceAs (Decidable ((∀ accepted ∈ b.accepted? (.subscribe c raw qos), CleanId accepted.2) ∧
        ∀ conn ∈ b.conns.lookup c, ∀ id ∈ conn.sessionId, conn.Knows b.hub.router id))
  | .step (.unsubscribe _ _) => inferInstanceAs (Decidable (_ ∧ True))
  | .step (.close _) => inferInstanceAs (Decidable (_ ∧ True))
  | .step (.background _) => inferInstanceAs (Decidable (_ ∧ True))
  | .restart .. => inferInstanceAs (Decidable True)

def visit (c : Nat) (filters : List String) : List LifeStep :=
  [.step (.accept c "p"), .step (.connect c ⟨"c", false, 60, none⟩ (some ⟨["#"], ["#"]⟩) 0)] ++
    filters.map (fun raw => .step (.subscribe c raw .atLeastOnce)) ++ [.step (.close c)]

/-- A visit with as many subscriptions as there may be, and after a restart another
that renews none of them. -/
theorem withinQuota_across_restart :
    (Machine.run Broker.live (new (some Storage.empty) ⟨5, 5, 60⟩ 0 2 0)
      (visit 1 ["a", "b"] ++ .restart 3 ⟨5, 5, 60⟩ 0 0 :: visit 2 [])).isSome ∧
      Machine.Always Broker.live WithinQuota (new (some Storage.empty) ⟨5, 5, 60⟩ 0 2 0)
        (visit 1 ["a", "b"] ++ .restart 3 ⟨5, 5, 60⟩ 0 0 :: visit 2 []) :=
  ⟨by decide +kernel, withinQuota_of_informed ⟨5, 5, 60⟩ 0 2 0 _ (by decide +kernel)⟩

/-- A client that comes back may subscribe as often again. -/
theorem quota_exceeded_by_resume :
    ∃ b, Machine.run Broker.live (new (some Storage.empty) ⟨5, 5, 60⟩ 0 1 0)
      (visit 1 ["a"] ++ visit 2 ["b"]) = some b ∧ ¬ b.WithinQuota := by
  obtain ⟨b, hb⟩ := Option.isSome_iff_exists.mp (show (Machine.run Broker.live
    (new (some Storage.empty) ⟨5, 5, 60⟩ 0 1 0) (visit 1 ["a"] ++ visit 2 ["b"])).isSome = true by
      decide +kernel)
  have hcount : ∀ b ∈ Machine.run Broker.live (new (some Storage.empty) ⟨5, 5, 60⟩ 0 1 0)
      (visit 1 ["a"] ++ visit 2 ["b"]), b.hub.router.countOf 1 = 2 ∧ b.limit = 1 := by
    decide +kernel
  refine ⟨b, hb, fun hquota => ?_⟩
  have hle := hquota 1
  rw [(hcount b hb).1, (hcount b hb).2] at hle
  omega

end Broker

end Relay
