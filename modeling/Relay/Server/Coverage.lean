import Relay.Server.Restart
import Relay.Server.StepWrites

/-! # Rows name no more than sessions hold

The store may lag behind a session that becomes durable late, but it is never
ahead: a subscription row of a client is one that the client's durable session
holds, whatever the order of connects, resumes, subscriptions, detaches and
expiries, and after a restart at any point of the queue.
-/

namespace Relay

/-- The client of a session and its expiry interval. -/
def SessionTable.lease (t : SessionTable) (id : ClientId) : Option (String × Nat) :=
  (t.holder id).map fun a => (a.clientId, a.expirySecs)

namespace Hub

structure Covered (h : Hub) : Prop where
  disk : h.disk.isSome
  consistent : h.Consistent
  clean : ∀ id client secs, h.sessions.lease id = some (client, secs) → CleanId client
  /-- A durable session has its row. -/
  marked : ∀ id client secs, h.sessions.lease id = some (client, secs) → 0 < secs →
    (h.record client).expiry ≠ none
  /-- A subscription row is one that the durable session of its client holds. -/
  rows : ∀ client raw key, CleanId client → (h.record client).subs raw ≠ none →
    routeKey raw = some key → ∃ id secs, h.sessions.lease id = some (client, secs) ∧ 0 < secs ∧
      h.held id key ≠ none

theorem Consistent.idOf_of_lease {h : Hub} (hcons : h.Consistent) {id : ClientId}
    {client : String} {secs : Nat} (hid : h.sessions.lease id = some (client, secs)) :
    h.sessions.idOf.lookup client = some id := by
  obtain ⟨a, ha, heq⟩ := Option.map_eq_some_iff.mp hid
  refine (hcons.inverse client id).mpr ?_
  rw [SessionTable.clientOf_eq_holder, ha, Option.map_some, (Prod.mk.inj heq).1]

/-- A client has one session at a time. -/
theorem Consistent.lease_unique {h : Hub} (hcons : h.Consistent) {id id' : ClientId}
    {client : String} {secs secs' : Nat} (hid : h.sessions.lease id = some (client, secs))
    (hid' : h.sessions.lease id' = some (client, secs')) : id = id' :=
  Option.some.inj ((hcons.idOf_of_lease hid).symm.trans (hcons.idOf_of_lease hid'))

section Changes

variable {h h' : Hub}

/-- Coverage depends on the leases, the subscriptions and the rows of the store. -/
theorem Covered.same (hcov : h.Covered) (hdisk : h'.disk.isSome) (hcons : h'.Consistent)
    (hlease : h'.sessions.lease = h.sessions.lease)
    (hgranted : h'.router.granted = h.router.granted)
    (hexpiry : ∀ client, (h'.record client).expiry = (h.record client).expiry)
    (hsubs : ∀ client, (h'.record client).subs = (h.record client).subs) : h'.Covered where
  disk := hdisk
  consistent := hcons
  clean := by
    rw [hlease]
    exact hcov.clean
  marked id client secs hid hpos := by
    rw [hlease] at hid
    rw [hexpiry]
    exact hcov.marked id client secs hid hpos
  rows client raw key hclient hraw hkey := by
    rw [hsubs] at hraw
    obtain ⟨id, secs, hid, hpos, hheld⟩ := hcov.rows client raw key hclient hraw hkey
    refine ⟨id, secs, hlease ▸ hid, hpos, ?_⟩
    rw [held, hgranted]
    exact hheld

/-- A change that concerns one client. -/
theorem Covered.update (hcov : h.Covered) {client : String} (hclient : CleanId client)
    (hdisk : h'.disk.isSome) (hcons : h'.Consistent)
    (hothers : ∀ id c secs, c ≠ client →
      (h'.sessions.lease id = some (c, secs) ↔ h.sessions.lease id = some (c, secs)))
    (hheld : ∀ id c secs, h.sessions.lease id = some (c, secs) → c ≠ client →
      h'.held id = h.held id)
    (hrecord : ∀ c, CleanId c → c ≠ client → h'.record c = h.record c)
    (hmarked : ∀ id secs, h'.sessions.lease id = some (client, secs) → 0 < secs →
      (h'.record client).expiry ≠ none)
    (hrows : ∀ raw key, (h'.record client).subs raw ≠ none → routeKey raw = some key →
      ∃ id secs, h'.sessions.lease id = some (client, secs) ∧ 0 < secs ∧ h'.held id key ≠ none) :
    h'.Covered where
  disk := hdisk
  consistent := hcons
  clean id c secs hid := by
    by_cases heq : c = client
    · rw [heq]
      exact hclient
    · exact hcov.clean id c secs ((hothers id c secs heq).mp hid)
  marked id c secs hid hpos := by
    by_cases heq : c = client
    · subst heq
      exact hmarked id secs hid hpos
    · have hold := (hothers id c secs heq).mp hid
      rw [hrecord c (hcov.clean id c secs hold) heq]
      exact hcov.marked id c secs hold hpos
  rows c raw key hc hraw hkey := by
    by_cases heq : c = client
    · subst heq
      exact hrows raw key hraw hkey
    · rw [hrecord c hc heq] at hraw
      obtain ⟨id, secs, hid, hpos, hgrant⟩ := hcov.rows c raw key hc hraw hkey
      refine ⟨id, secs, (hothers id c secs heq).mpr hid, hpos, ?_⟩
      rw [hheld id c secs hid heq]
      exact hgrant

/-- A session that goes takes its subscriptions and its rows along. -/
theorem Covered.gone (hcov : h.Covered) {id : ClientId} {client : String} {secs : Nat}
    (hid : h.sessions.lease id = some (client, secs)) (hcons : h'.Consistent)
    (hlease : h'.sessions.lease = Function.update h.sessions.lease id none)
    (hrouter : h'.router = h.router.removeClient id)
    (hdisk : h'.disk = (h.enqueue (.removeSession client)).disk) : h'.Covered := by
  have hclient := hcov.clean id client secs hid
  have habout : (PersistOp.removeSession client).About client := rfl
  have hrecord : ∀ c, CleanId c → h'.record c =
      (PersistOp.removeSession client).onRecord c (h.record c) := fun c hc => by
    rw [record_congr hdisk, record_enqueue hcov.disk (habout.clean hclient) hc]
  refine hcov.update hclient ?_ hcons ?_ ?_ ?_ ?_ ?_
  · rw [hdisk, isSome_disk_enqueue]
    exact hcov.disk
  · intro i c n hne
    rw [hlease, Function.update_apply]
    split
    next heq =>
      subst heq
      constructor
      · exact fun h => nomatch h
      · intro hi
        rw [hid] at hi
        exact absurd (Prod.mk.inj (Option.some.inj hi)).1.symm hne
    next => exact Iff.rfl
  · intro i c n hi hne
    have hi' : i ≠ id := by
      rintro rfl
      rw [hid] at hi
      exact hne (Prod.mk.inj (Option.some.inj hi)).1.symm
    funext key
    simp only [held, hrouter, Router.granted_removeClient, hi', if_false]
  · intro c hc hne
    rw [hrecord c hc, PersistOp.onRecord_of_ne habout hne]
  · intro i n hi
    rw [hlease, Function.update_apply] at hi
    split at hi
    · cases hi
    next hne => exact absurd (hcov.consistent.lease_unique hi hid) hne
  · intro raw key hraw
    rw [hrecord client hclient, PersistOp.onRecord_removeSession] at hraw
    exact absurd rfl hraw

/-- Durable means leased for a positive interval. -/
theorem durableClient_iff {id : ClientId} {client : String} :
    h.durableClient id = some client ↔
      ∃ secs, h.sessions.lease id = some (client, secs) ∧ 0 < secs := by
  simp only [durableClient, SessionTable.lease, SessionTable.holder, Option.map_map,
    Option.map_eq_some_iff, Option.filter_eq_some_iff]
  constructor
  · rintro ⟨s, ⟨hs, hpos⟩, rfl⟩
    exact ⟨s.expirySecs, ⟨s, hs, rfl⟩, of_decide_eq_true hpos⟩
  · rintro ⟨secs, ⟨s, hs, heq⟩, hpos⟩
    obtain ⟨rfl, rfl⟩ := Prod.mk.inj heq
    exact ⟨s, ⟨hs, decide_eq_true hpos⟩, rfl⟩

/-- Subscribing and unsubscribing change the router and the row together. -/
theorem Covered.edit (hcov : h.Covered) {id : ClientId} {raw : String}
    {key : Option String × String} {value : Option QoS} (hedit : Edit h h' id raw key value) :
    h'.Covered := by
  have hlease : h'.sessions.lease = h.sessions.lease := by rw [hedit.sessions]
  have hcons : h'.Consistent := by
    unfold Consistent
    rw [hedit.sessions, hedit.nextId]
    exact hcov.consistent
  have hdisk := hedit.disk
  cases hdurable : h.durableClient id with
  | none =>
      rw [hdurable] at hdisk
      have hrecord : ∀ c, h'.record c = h.record c := record_congr hdisk
      refine ⟨hdisk ▸ hcov.disk, hcons, hlease ▸ hcov.clean, ?_, ?_⟩
      · intro i c secs hi hpos
        rw [hrecord]
        exact hcov.marked i c secs (hlease ▸ hi) hpos
      · intro c raw' key' hc hraw hkey
        rw [hrecord] at hraw
        obtain ⟨i, secs, hi, hpos, hgrant⟩ := hcov.rows c raw' key' hc hraw hkey
        have hne : i ≠ id := by
          rintro rfl
          rw [durableClient_iff.mpr ⟨secs, hi, hpos⟩] at hdurable
          cases hdurable
        refine ⟨i, secs, hlease ▸ hi, hpos, ?_⟩
        rw [hedit.held_of_ne hne]
        exact hgrant
  | some client =>
      rw [hdurable] at hdisk
      obtain ⟨secs, hid, hpos⟩ := durableClient_iff.mp hdurable
      have hclient := hcov.clean id client secs hid
      have habout := PersistOp.about_subscription client raw value
      have hrecord : ∀ c, CleanId c → h'.record c =
          (PersistOp.subscription client raw value).onRecord c (h.record c) := fun c hc => by
        rw [record_congr hdisk, record_enqueue hcov.disk (habout.clean hclient) hc]
      have hown := hrecord client hclient
      rw [PersistOp.onRecord_subscription] at hown
      refine hcov.update hclient ?_ hcons ?_ ?_ ?_ ?_ ?_
      · rw [hdisk, isSome_disk_enqueue]
        exact hcov.disk
      · intro i c n _
        rw [hlease]
      · intro i c n hi hne
        refine hedit.held_of_ne ?_
        rintro rfl
        rw [hid] at hi
        exact hne (Prod.mk.inj (Option.some.inj hi)).1.symm
      · intro c hc hne
        rw [hrecord c hc, PersistOp.onRecord_of_ne habout hne]
      · intro i n hi hn
        rw [hlease] at hi
        rw [hown]
        exact hcov.marked i client n hi hn
      · intro raw' key' hraw hkey
        rw [hown] at hraw
        dsimp only at hraw
        refine ⟨id, secs, hlease ▸ hid, hpos, ?_⟩
        rw [hedit.held]
        by_cases heq : raw' = raw
        · -- the row that was put
          subst heq
          have hvalue : value ≠ none := by
            rintro rfl
            simp at hraw
          rcases hedit.parsed with hparsed | ⟨-, hnone⟩
          · rw [Option.some.inj (hkey.symm.trans hparsed), Function.update_self]
            exact hvalue
          · exact absurd hnone hvalue
        · rw [Function.update_of_ne heq] at hraw
          obtain ⟨i, n, hi, -, hgrant⟩ := hcov.rows client raw' key' hclient hraw hkey
          rw [hcov.consistent.lease_unique hi hid] at hgrant
          have hne : key' ≠ key := by
            rintro rfl
            exact heq (hedit.only raw' hkey)
          rw [Function.update_of_ne hne]
          exact hgrant

/-- A CONNECT leaves the sessions of other clients alone. -/
theorem Consistent.lease_connect (hcons : h.Consistent) {clientId : String} {cleanStart : Bool}
    {expirySecs now : Nat} {c : Connected}
    (hconnect : h.connect clientId cleanStart expirySecs now = some (c, h')) :
    h'.sessions.lease c.id = some (clientId, expirySecs) ∧
      ∀ i client secs, client ≠ clientId →
        (h'.sessions.lease i = some (client, secs) ↔ h.sessions.lease i = some (client, secs)) := by
  obtain ⟨hholder, -, -⟩ := hcons.holder_connect hconnect
  constructor
  · rw [SessionTable.lease, hholder, Function.update_self, Option.map_some]
  · intro i client secs hne
    simp only [SessionTable.lease, hholder, Option.map_eq_some_iff, Prod.mk.injEq]
    constructor
    · rintro ⟨a, ha, rfl, rfl⟩
      rw [Function.update_apply] at ha
      split at ha
      · cases ha
        exact absurd rfl hne
      · exact ⟨a, (Option.filter_eq_some_iff.mp ha).1, rfl, rfl⟩
    · rintro ⟨a, ha, rfl, rfl⟩
      have hi : i ≠ c.id := by
        rintro rfl
        exact hne (hcons.holder_connect_own hconnect ha)
      refine ⟨a, ?_, rfl, rfl⟩
      rw [Function.update_of_ne hi, ha]
      simp [hne]

/-- What a CONNECT does to the store and the router: the client's record is emptied
by a clean start, and the marker is put; subscriptions stay with a resumed session. -/
theorem Consistent.stores_connect (hcons : h.Consistent) {clientId : String} {cleanStart : Bool}
    {expirySecs now : Nat} {c : Connected}
    (hconnect : h.connect clientId cleanStart expirySecs now = some (c, h')) :
    (∃ h₁ : Hub, h'.disk = (h₁.enqueue (.marker clientId expirySecs)).disk ∧
      (h₁.disk = h.disk ∧ (∀ id secs, h.sessions.lease id = some (clientId, secs) →
          h'.held id = h.held id ∧ c.id = id) ∨
        h₁.disk = (h.enqueue (.removeSession clientId)).disk)) ∧
      ∀ id client secs, h.sessions.lease id = some (client, secs) → client ≠ clientId →
        h'.held id = h.held id := by
  rcases connect_cases hconnect with
    ⟨hid, rfl, rfl⟩ | ⟨id, hid, -, rfl, rfl⟩ | ⟨id, s, hid, -, hs, rfl, rfl⟩
  · rw [persistMeta_eq]
    refine ⟨⟨h, rfl, Or.inl ⟨rfl, fun id secs hlease => ?_⟩⟩, fun id client secs _ _ => rfl⟩
    rw [hcons.idOf_of_lease hlease] at hid
    cases hid
  · rw [persistMeta_eq]
    refine ⟨⟨h.enqueue (.removeSession clientId), rfl, Or.inr rfl⟩, ?_⟩
    intro i client secs hi hne
    have hi' : i ≠ id := by
      rintro rfl
      have hclient := (hcons.inverse clientId i).mp hid
      have hclient' := (hcons.inverse client i).mp (hcons.idOf_of_lease hi)
      exact hne (Option.some.inj (hclient'.symm.trans hclient))
    funext key
    simp only [held, enqueue, register, forgetPersisted, dropSession, bumpGeneration,
      Router.granted_removeClient, hi', if_false]
  · rw [persistMeta_eq]
    refine ⟨⟨h, rfl, Or.inl ⟨rfl, fun i secs hi => ⟨rfl, ?_⟩⟩⟩, fun i client secs _ _ => rfl⟩
    rw [hcons.idOf_of_lease hi] at hid
    exact (Option.some.inj hid).symm

/-- A CONNECT writes the session row, or removes it together with the session it replaces.
-/
theorem Covered.connect (hcov : h.Covered) {clientId : String} (hclean : CleanId clientId)
    {cleanStart : Bool} {expirySecs now : Nat} {c : Connected}
    (hconnect : h.connect clientId cleanStart expirySecs now = some (c, h')) : h'.Covered := by
  have hcons := hcov.consistent
  have hcons' := hcons.effect (effect_connect hconnect)
  obtain ⟨hown, hothers⟩ := hcons.lease_connect hconnect
  obtain ⟨⟨h₁, hdisk, hbefore⟩, hheld⟩ := hcons.stores_connect hconnect
  have hmarker := PersistOp.about_marker clientId expirySecs
  have hremove : (PersistOp.removeSession clientId).About clientId := rfl
  have hsome : h₁.disk.isSome := by
    rcases hbefore with ⟨hsame, -⟩ | hsame
    · rw [hsame]
      exact hcov.disk
    · rw [hsame, isSome_disk_enqueue]
      exact hcov.disk
  have hrecord : ∀ client, CleanId client → h'.record client =
      (PersistOp.marker clientId expirySecs).onRecord client (h₁.record client) :=
    fun client hclient => by
      rw [record_congr hdisk, record_enqueue hsome (hmarker.clean hclean) hclient]
  refine hcov.update hclean ?_ hcons' hothers hheld ?_ ?_ ?_
  · rw [hdisk, isSome_disk_enqueue]
    exact hsome
  · intro client hclient hne
    rw [hrecord client hclient, PersistOp.onRecord_of_ne hmarker hne]
    rcases hbefore with ⟨hsame, -⟩ | hsame
    · exact record_congr hsame client
    · rw [record_congr hsame, record_enqueue hcov.disk (hremove.clean hclean) hclient,
        PersistOp.onRecord_of_ne hremove hne]
  · intro id secs hid hpos
    rw [hcons'.lease_unique hid hown, hown] at hid
    cases hid
    rw [hrecord clientId hclean, PersistOp.onRecord_marker, if_pos hpos]
    exact Option.some_ne_none _
  · intro raw key hraw hkey
    rw [hrecord clientId hclean, PersistOp.onRecord_marker] at hraw
    split at hraw
    next hpos =>
      rcases hbefore with ⟨hsame, hkept⟩ | hsame
      · -- rows of a session that is resumed
        rw [record_congr hsame] at hraw
        obtain ⟨id, secs, hid, -, hgrant⟩ := hcov.rows clientId raw key hclean hraw hkey
        obtain ⟨hheld', rfl⟩ := hkept id secs hid
        exact ⟨c.id, expirySecs, hown, hpos, hheld' ▸ hgrant⟩
      · rw [record_congr hsame, record_enqueue hcov.disk (hremove.clean hclean) hclean,
          PersistOp.onRecord_removeSession] at hraw
        exact absurd rfl hraw
    next => exact absurd rfl hraw

theorem lease_discard_set {id : ClientId} {s : Session}
    (hs : h.sessions.byId.lookup id = some s) (s' : Session) :
    ((h.setSession id s').discard id).sessions.lease =
      Function.update h.sessions.lease id none := by
  funext i
  rw [SessionTable.lease, holder_discard, holder_setSession h hs, Function.update_idem,
    Function.update_apply, Function.update_apply]
  split <;> rfl

theorem lease_offline {id : ClientId} {s : Session} (hs : h.sessions.byId.lookup id = some s) :
    (h.setSession id { s with tx := none }).sessions.lease = h.sessions.lease := by
  funext i
  rw [SessionTable.lease, holder_setSession h hs, Function.update_apply]
  split
  next heq =>
    rw [heq, SessionTable.lease, SessionTable.holder, hs]
    rfl
  next => rfl

/-- What a session that is removed leaves to the worker. -/
theorem disk_discard_set {id : ClientId} {s s' : Session}
    (hs : h.sessions.byId.lookup id = some s) (hclient : s'.clientId = s.clientId) :
    ((h.setSession id s').discard id).disk = (h.enqueue (.removeSession s.clientId)).disk := by
  have hset : (h.setSession id s').sessions.byId.lookup id = some s' := by
    rw [lookup_setSession hs, if_pos rfl]
  unfold discard
  rw [hset, ← hclient]
  rfl

/-- Removing a session removes its rows. -/
theorem Covered.discard_set (hcov : h.Covered) {id : ClientId} {s s' : Session}
    (hs : h.sessions.byId.lookup id = some s) (hclient : s'.clientId = s.clientId) :
    ((h.setSession id s').discard id).Covered := by
  have hset : (h.setSession id s').sessions.byId.lookup id = some s' := by
    rw [lookup_setSession hs, if_pos rfl]
  have hid : h.sessions.lease id = some (s.clientId, s.expirySecs) := by
    rw [SessionTable.lease, SessionTable.holder, hs]
    rfl
  refine hcov.gone hid (hcov.consistent.effect (effect_discard (quiet_setSession hs hclient) id))
    (lease_discard_set hs s') ?_ (disk_discard_set hs hclient)
  unfold discard
  rw [hset]
  rfl

theorem Covered.detach (hcov : h.Covered) (id : ClientId) (generation : Nat) :
    (h.detach id generation).Covered := by
  rcases h.detach_cases id generation with ⟨heq, -⟩ | ⟨s, hs, -, ⟨-, heq⟩ | ⟨-, timers, heq⟩⟩
  · rw [heq]
    exact hcov
  · rw [heq]
    refine hcov.discard_set hs ?_
    rfl
  · have hquiet : Quiet h (h.setSession id { s with tx := none }) := quiet_setSession hs rfl
    have hoffline : (h.setSession id { s with tx := none }).Covered := by
      exact hcov.same hcov.disk (hcov.consistent.effect hquiet.effect) (lease_offline hs) rfl
        (fun _ => rfl) fun _ => rfl
    rw [heq]
    exact hoffline.same hoffline.disk hoffline.consistent rfl rfl (fun _ => rfl) fun _ => rfl

theorem Covered.expire (hcov : h.Covered) (id : ClientId) (generation : Nat) :
    (h.expire id generation).2.Covered := by
  rcases h.expire_cases id generation with ⟨heq, -⟩ | ⟨s, hs, -, heq⟩
  · rw [heq]
    exact hcov
  · rw [heq]
    refine hcov.discard_set hs ?_
    rfl

/-- In the background the router only moves the cursors of share groups. -/
theorem router_background {a : Section} (hbackground : a.background = true)
    (hmoves : a.moves = false) (hact : h.act a = some h') :
    h'.router = h.router ∨ ∃ topic, h'.router = (h.router.route topic).2 := by
  cases a with
  | connect => cases hmoves
  | detach => cases hmoves
  | expire => cases hmoves
  | subscribe => cases hbackground
  | subscribeShared => cases hbackground
  | unroute => cases hbackground
  | route topic =>
      cases hact
      exact Or.inr ⟨topic, rfl⟩
  | deliver targets topic payload msgQos now =>
      obtain ⟨f, hf, rfl⟩ := Option.map_eq_some_iff.mp hact
      exact Or.inl (still_deliverAll hf).router
  | replayRetained id messages granted now =>
      obtain ⟨⟨snapshot, h''⟩, hreplay, rfl⟩ := Option.map_eq_some_iff.mp hact
      exact Or.inl (still_replayRetained hreplay).router
  | acknowledge id ack =>
      cases hact
      exact Or.inl (still_acknowledge h id ack).router
  | qos2Seen id pid =>
      cases hact
      exact Or.inl (still_qos2Seen h id pid).router
  | qos2Release id pid =>
      cases hact
      exact Or.inl (still_qos2Release h id pid).router
  | send id packets =>
      cases hact
      exact Or.inl (still_sendAll h id packets).router
  | work => exact Or.inl (still_work hact).router
  | _ =>
      cases hact
      exact Or.inl rfl

/-- Background sections write nothing about sessions, except the expiry. -/
theorem Covered.background (hcov : h.Covered) {a : Section} (hbackground : a.background = true)
    (hwrite : ∀ op, a = .enqueue op → op.Aside) (hact : h.act a = some h') : h'.Covered := by
  cases hmoves : a.moves with
  | true =>
      cases a with
      | expire id generation =>
          cases hact
          exact hcov.expire id generation
      | connect => cases hbackground
      | detach => cases hbackground
      | _ => cases hmoves
  | false =>
      have hcons := hcov.consistent.effect (act_effect hact)
      have hlease : h'.sessions.lease = h.sessions.lease := by
        funext i
        rw [SessionTable.lease, (unmoved_act hact hmoves).holder, SessionTable.lease]
      have hgranted : h'.router.granted = h.router.granted := by
        rcases router_background hbackground hmoves hact with hrouter | ⟨topic, hrouter⟩
        · rw [hrouter]
        · rw [hrouter, Router.granted_route]
      by_cases hwork : a = .work
      · subst hwork
        obtain ⟨d, d', hd, -, rfl⟩ := exists_of_work hact
        refine hcov.same rfl hcons hlease hgranted ?_ ?_
        · intro client
          rw [record_work hact]
        · intro client
          rw [record_work hact]
      · have hqueues : QueuesAll PersistOp.Aside h h' :=
          queuesAll_unmoved hmoves hwork hwrite hact
        have hdisk : h'.disk.isSome := by
          obtain ⟨ops, hops, -⟩ := hqueues
          rw [hops.disk, Option.isSome_map]
          exact hcov.disk
        exact hcov.same hdisk hcons hlease hgranted (fun client => (hqueues.record_aside client).1)
          fun client => (hqueues.record_aside client).2

end Changes

end Hub

theorem Broker.covered_finish {b : Broker} (hcov : b.hub.Covered) (c : Nat) (conn : Conn) :
    (b.finish c conn).hub.Covered := by
  unfold finish
  cases conn.sessionId with
  | none => exact hcov
  | some id => exact hcov.detach id conn.generation

/-- The step lemma. -/
theorem Broker.covered_step {b b' : Broker} (hcov : b.hub.Covered) {st : BrokerStep}
    (hclean : ∀ accepted ∈ b.accepted? st, CleanId accepted.2)
    (hwrite : ∀ op ∈ st.write?, op.Aside) (hstep : b.step st = some b') : b'.hub.Covered := by
  cases stepped_of_step hstep with
  | accept => exact hcov
  | connect hconn hallowed hhub =>
      exact hcov.connect (hclean _ (accepted_connect hconn hallowed _)) hhub
  | @subscribe c raw qos conn id _ _ =>
      dsimp only
      rw [Hub.subscribeOne_eq]
      split
      · cases hkey : routeKey raw with
        | some key => exact hcov.edit (Hub.edit_subscribeRaw b.hub id _ hkey)
        | none =>
            rw [Hub.subscribeRaw_of_none b.hub id _ hkey]
            exact hcov
      · exact hcov
  | @unsubscribe c raw conn id _ _ =>
      obtain ⟨key, hedit⟩ := Hub.edit_unsubscribe b.hub id raw
      exact hcov.edit hedit
  | finish => exact covered_finish hcov _ _
  | background hothers hact =>
      refine hcov.background hothers ?_ hact
      rintro op rfl
      exact hwrite op rfl

/-! ## Restarts -/

/-- Subscription rows belong to clients with a session row, under a clean identifier
and with a positive interval. -/
structure Storage.Marked (st : Storage) : Prop where
  lasting : st.Lasting
  clean : ∀ client, (st.record client).expiry ≠ none → CleanId client
  marked : ∀ client raw, CleanId client → (st.record client).subs raw ≠ none →
    (st.record client).expiry ≠ none

/-- The leases at startup are the loaded rows, by position. -/
theorem Hub.lease_new (st : Storage) (retry : RetryConfig) (eventLogMax now : Nat) (id : ClientId)
    (client : String) (secs : Nat) :
    (Hub.new (some st) retry eventLogMax now).sessions.lease id = some (client, secs) ↔
      ∃ ps, slot st.loadSessions id = some ps ∧ ps.clientId = client ∧ ps.expirySecs = secs := by
  rw [SessionTable.lease, holder_new, Option.map_map, Option.map_eq_some_iff]
  simp

/-- A session at startup has the interval of its row. -/
theorem Hub.expiry_of_lease_new {st : Storage} {retry : RetryConfig} {eventLogMax now : Nat}
    {id : ClientId} {client : String} {secs : Nat}
    (hid : (Hub.new (some st) retry eventLogMax now).sessions.lease id = some (client, secs)) :
    (st.record client).expiry = some secs := by
  obtain ⟨ps, hslot, rfl, rfl⟩ := (lease_new st retry eventLogMax now id client secs).mp hid
  exact Storage.sessions_of_mem (mem_of_slot hslot)

/-- A session row is that of a session at startup. -/
theorem Hub.exists_lease_new {st : Storage} (retry : RetryConfig) (eventLogMax now : Nat)
    {client : String} {secs : Nat} (hrow : (st.record client).expiry = some secs) :
    ∃ id ps, slot st.loadSessions id = some ps ∧ ps.clientId = client ∧
      (Hub.new (some st) retry eventLogMax now).sessions.lease id = some (client, secs) := by
  let ps : PersistedSession :=
    { clientId := client
      expirySecs := secs
      subscriptions := (st.loadSubscriptions.filter fun sub => sub.1 = client).map Prod.snd }
  have hps : ps ∈ st.loadSessions := Storage.mem_loadSessions.mpr ⟨hrow, rfl⟩
  obtain ⟨k, hk⟩ := List.mem_iff_getElem?.mp hps
  exact ⟨k + 1, ps, hk, rfl, (lease_new ..).mpr ⟨ps, hk, rfl, rfl⟩⟩

theorem Hub.covered_new {st : Storage} (hst : st.Marked) (retry : RetryConfig)
    (eventLogMax now : Nat) : (Hub.new (some st) retry eventLogMax now).Covered := by
  have hrecord : ∀ client, (Hub.new (some st) retry eventLogMax now).record client =
      st.record client := fun _ => rfl
  refine ⟨rfl, consistent_new _ retry eventLogMax now, ?_, ?_, ?_⟩
  · intro id client secs hid
    refine hst.clean client ?_
    rw [expiry_of_lease_new hid]
    exact Option.some_ne_none secs
  · intro id client secs hid _
    rw [hrecord, expiry_of_lease_new hid]
    exact Option.some_ne_none secs
  · intro client raw key hclient hraw hkey
    rw [hrecord] at hraw
    obtain ⟨secs, hsecs⟩ := Option.ne_none_iff_exists'.mp (hst.marked client raw hclient hraw)
    obtain ⟨id, ps, hslot, rfl, hid⟩ := exists_lease_new retry eventLogMax now hsecs
    refine ⟨id, secs, hid, hst.lasting ps.clientId secs hsecs, ?_⟩
    rw [held, (rebuilt_new st retry eventLogMax now).granted, hslot, Option.bind_some]
    exact (PersistedSession.held_ne_none_iff (mem_of_slot hslot) hclient).mpr ⟨raw, hraw, hkey⟩

end Relay
