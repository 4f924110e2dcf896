import Relay.Core.RouterMap
import Relay.Server.Attachment

/-! # The session table

Handles and client identifiers determine each other. What a section does to the
table is said once, by four kinds of effect: nothing, entering a fresh client,
replacing a client's session, removing a session. Consistency follows from the
kinds, over every interleaving of sections from startup on.
-/

namespace Relay

def SessionTable.clientOf (t : SessionTable) (id : ClientId) : Option String :=
  (t.byId.lookup id).map Session.clientId

theorem SessionTable.clientOf_eq_holder (t : SessionTable) (id : ClientId) :
    t.clientOf id = (t.holder id).map Holder.clientId := by
  simp [clientOf, holder, Session.holder, Function.comp_def]

/-! ## Operations on one session keep its client -/

namespace Session

/-- The client and its expiry interval are the same. -/
structure Frame (s s' : Session) : Prop where
  clientId : s'.clientId = s.clientId
  expirySecs : s'.expirySecs = s.expirySecs

theorem frame_of_holder {s s' : Session} (hholder : s'.holder = s.holder) : Frame s s' :=
  ⟨congrArg Holder.clientId hholder, congrArg Holder.expirySecs hholder⟩

end Session

/-! ## Sections that leave the table alone -/

namespace Hub

/-- The table has the same handles for the same clients, and the router is as it
was. -/
structure Quiet (h h' : Hub) : Prop where
  clientOf : h'.sessions.clientOf = h.sessions.clientOf
  idOf : h'.sessions.idOf = h.sessions.idOf
  nextId : h'.nextId = h.nextId
  router : h'.router = h.router

theorem Quiet.refl (h : Hub) : Quiet h h := ⟨rfl, rfl, rfl, rfl⟩

theorem Quiet.trans {h₁ h₂ h₃ : Hub} (h₁₂ : Quiet h₁ h₂) (h₂₃ : Quiet h₂ h₃) : Quiet h₁ h₃ :=
  ⟨h₂₃.clientOf.trans h₁₂.clientOf, h₂₃.idOf.trans h₁₂.idOf, h₂₃.nextId.trans h₁₂.nextId,
    h₂₃.router.trans h₁₂.router⟩

theorem Still.quiet {h h' : Hub} (hstill : Still h h') : Quiet h h' where
  clientOf := by
    funext i
    rw [SessionTable.clientOf_eq_holder, SessionTable.clientOf_eq_holder, hstill.holder]
  idOf := hstill.idOf
  nextId := hstill.nextId
  router := hstill.router

theorem quiet_enqueue (h : Hub) (op : PersistOp) : Quiet h (h.enqueue op) :=
  (still_enqueue h op).quiet

theorem quiet_persistMeta (h : Hub) (clientId : String) (expirySecs : Nat) :
    Quiet h (h.persistMeta clientId expirySecs) :=
  (still_persistMeta h clientId expirySecs).quiet

theorem quiet_setSession {h : Hub} {id : ClientId} {s s' : Session}
    (hlookup : h.sessions.byId.lookup id = some s) (hclient : s'.clientId = s.clientId) :
    Quiet h (h.setSession id s') where
  clientOf := by
    funext i
    simp only [SessionTable.clientOf, setSession, AssocMap.lookup_modify]
    split
    next heq =>
      subst heq
      rw [hlookup, Option.map_some, Option.map_some, Option.map_some, hclient]
    next => rfl
  idOf := rfl
  nextId := rfl
  router := rfl

end Hub

/-! ## The effect of a section -/

/-- What a section does to the abstract map of subscriptions, connections ending
or starting apart. -/
def Section.routed (held : SubscriptionKey → Option QoS) : Section →
    SubscriptionKey → Option QoS
  | .subscribe id filter qos => Function.update held ⟨id, none, filter.asStr⟩ (some qos)
  | .subscribeShared group id filter qos =>
      Function.update held ⟨id, some group, filter.asStr⟩ (some qos)
  | .unroute id raw =>
      match SharedSubscription.parse raw with
      | some shared => Function.update held ⟨id, some shared.group, shared.filter.asStr⟩ none
      | none => Function.update held ⟨id, none, raw⟩ none
  | _ => held

/-- The kinds of effect on table and router; `held` is the map of subscriptions
afterwards when no session comes or goes. -/
inductive Hub.Effect (held : SubscriptionKey → Option QoS) (h h' : Hub) : Prop where
  | quiet (clientOf : h'.sessions.clientOf = h.sessions.clientOf)
      (idOf : h'.sessions.idOf = h.sessions.idOf) (nextId : h'.nextId = h.nextId)
      (router : h'.router.granted = held)
  | fresh (clientId : String) (absent : h.sessions.idOf.lookup clientId = none)
      (clientOf : h'.sessions.clientOf =
        Function.update h.sessions.clientOf h.nextId (some clientId))
      (idOf : h'.sessions.idOf = h.sessions.idOf.insert clientId h.nextId)
      (nextId : h'.nextId = h.nextId + 1) (router : h'.router = h.router)
  | replaced (clientId : String) (old : ClientId)
      (present : h.sessions.idOf.lookup clientId = some old)
      (clientOf : h'.sessions.clientOf = Function.update
        (Function.update h.sessions.clientOf old none) h.nextId (some clientId))
      (idOf : h'.sessions.idOf = h.sessions.idOf.insert clientId h.nextId)
      (nextId : h'.nextId = h.nextId + 1) (router : h'.router = h.router.removeClient old)
  | removed (old : ClientId)
      (clientOf : h'.sessions.clientOf = Function.update h.sessions.clientOf old none)
      (idOf : h'.sessions.idOf = h.sessions.idOf.retain fun _ id => id ≠ old)
      (nextId : h'.nextId = h.nextId) (router : h'.router = h.router.removeClient old)

namespace Hub

theorem Quiet.effect {h h' : Hub} (hquiet : Quiet h h') : Effect h.router.granted h h' :=
  .quiet hquiet.clientOf hquiet.idOf hquiet.nextId (by rw [hquiet.router])

/-- Quiet changes afterwards do not matter. -/
theorem Effect.trans_quiet {held : SubscriptionKey → Option QoS} {h h' h'' : Hub}
    (heffect : Effect held h h') (hquiet : Quiet h' h'') : Effect held h h'' := by
  cases heffect with
  | quiet clientOf idOf nextId router =>
      exact .quiet (hquiet.clientOf.trans clientOf) (hquiet.idOf.trans idOf)
        (hquiet.nextId.trans nextId) (by rw [hquiet.router, router])
  | fresh clientId absent clientOf idOf nextId router =>
      exact .fresh clientId absent (hquiet.clientOf.trans clientOf) (hquiet.idOf.trans idOf)
        (hquiet.nextId.trans nextId) (hquiet.router.trans router)
  | replaced clientId old present clientOf idOf nextId router =>
      exact .replaced clientId old present (hquiet.clientOf.trans clientOf)
        (hquiet.idOf.trans idOf) (hquiet.nextId.trans nextId) (hquiet.router.trans router)
  | removed old clientOf idOf nextId router =>
      exact .removed old (hquiet.clientOf.trans clientOf) (hquiet.idOf.trans idOf)
        (hquiet.nextId.trans nextId) (hquiet.router.trans router)

theorem clientOf_register (h : Hub) (clientId : String) (expirySecs generation : Nat) :
    (h.register clientId expirySecs generation).sessions.clientOf =
      Function.update h.sessions.clientOf h.nextId (some clientId) := by
  funext i
  simp only [SessionTable.clientOf, register, AssocMap.lookup_insert, Function.update_apply]
  split <;> rfl

theorem clientOf_dropSession (h : Hub) (id : ClientId) :
    (h.dropSession id).sessions.clientOf = Function.update h.sessions.clientOf id none := by
  funext i
  simp only [SessionTable.clientOf, dropSession, AssocMap.lookup_erase, Function.update_apply]
  split <;> rfl

theorem effect_connect {h h' : Hub} {clientId : String} {cleanStart : Bool} {expirySecs now : Nat}
    {c : Connected} (hconnect : h.connect clientId cleanStart expirySecs now = some (c, h')) :
    Effect h.router.granted h h' := by
  rcases connect_cases hconnect with
    ⟨hnone, -, rfl⟩ | ⟨id, hid, -, -, rfl⟩ | ⟨id, s, -, -, hs, -, rfl⟩
  · have hquiet := quiet_persistMeta (h.bumpGeneration.register clientId expirySecs
      (h.sessions.generation + 1)) clientId expirySecs
    refine .fresh clientId hnone ?_ hquiet.idOf hquiet.nextId hquiet.router
    rw [hquiet.clientOf, clientOf_register]
    rfl
  · have hquiet := quiet_persistMeta (((h.bumpGeneration.dropSession id).forgetPersisted
      clientId).register clientId expirySecs (h.sessions.generation + 1)) clientId expirySecs
    refine .replaced clientId id hid ?_ hquiet.idOf hquiet.nextId hquiet.router
    rw [hquiet.clientOf, clientOf_register]
    exact congrArg (fun f => Function.update f _ _) (clientOf_dropSession h.bumpGeneration id)
  · have hbump : Quiet h h.bumpGeneration := ⟨rfl, rfl, rfl, rfl⟩
    have hs' : h.bumpGeneration.sessions.byId.lookup id = some s := hs
    refine Effect.trans_quiet (Quiet.effect ?_) (quiet_persistMeta _ clientId expirySecs)
    exact hbump.trans (quiet_setSession hs' rfl)

/-- Discarding a session, from a hub that is quietly like another one. -/
theorem effect_discard {h h₁ : Hub} (hquiet : Quiet h h₁) (id : ClientId) :
    Effect h.router.granted h (h₁.discard id) := by
  have hclient : (h₁.discard id).sessions.clientOf =
      Function.update h.sessions.clientOf id none := by
    rw [← hquiet.clientOf]
    funext i
    simp only [discard, SessionTable.clientOf, Function.update_apply]
    cases h₁.sessions.byId.lookup id <;>
      simp only [enqueue, AssocMap.lookup_erase] <;> split <;> rfl
  refine .removed id hclient ?_ ?_ ?_
  · rw [← hquiet.idOf]
    unfold discard
    cases h₁.sessions.byId.lookup id <;> rfl
  · rw [← hquiet.nextId]
    unfold discard
    cases h₁.sessions.byId.lookup id <;> rfl
  · rw [← hquiet.router]
    unfold discard
    cases h₁.sessions.byId.lookup id <;> rfl

theorem effect_detach (h : Hub) (id : ClientId) (generation : Nat) :
    Effect h.router.granted h (h.detach id generation) := by
  rcases h.detach_cases id generation with ⟨heq, -⟩ | ⟨s, hs, -, ⟨-, heq⟩ | ⟨-, timers, heq⟩⟩
  · rw [heq]
    exact (Quiet.refl h).effect
  · have hquiet : Quiet h (h.setSession id { s with tx := none }) := quiet_setSession hs rfl
    rw [heq]
    exact effect_discard hquiet id
  · have hquiet : Quiet h (h.setSession id { s with tx := none }) := quiet_setSession hs rfl
    rw [heq]
    exact .quiet hquiet.clientOf hquiet.idOf hquiet.nextId (congrArg Router.granted hquiet.router)

theorem effect_expire (h : Hub) (id : ClientId) (generation : Nat) :
    Effect h.router.granted h (h.expire id generation).2 := by
  rcases h.expire_cases id generation with ⟨heq, -⟩ | ⟨s, hs, -, heq⟩
  · rw [heq]
    exact (Quiet.refl h).effect
  · have hquiet : Quiet h (h.setSession id s.drainUndelivered.1) := quiet_setSession hs rfl
    rw [heq]
    exact effect_discard hquiet id

theorem effect_unroute (h : Hub) (id : ClientId) (raw : String) :
    Effect ((Section.unroute id raw).routed h.router.granted) h (h.unroute id raw).2 := by
  refine .quiet rfl rfl rfl ?_
  cases hparse : SharedSubscription.parse raw with
  | some shared =>
      simp only [unroute, Section.routed, hparse]
      exact h.router.granted_unsubscribeShared id shared.group _
  | none =>
      simp only [unroute, Section.routed, hparse]
      exact h.router.granted_unsubscribe id raw

/-- Every section has one of the four effects. -/
theorem act_effect {h h' : Hub} {a : Section} (hact : h.act a = some h') :
    Effect (a.routed h.router.granted) h h' := by
  cases a with
  | connect clientId cleanStart expirySecs now =>
      obtain ⟨⟨c, h''⟩, hconnect, rfl⟩ := Option.map_eq_some_iff.mp hact
      exact effect_connect hconnect
  | detach id generation =>
      cases hact
      exact effect_detach h id generation
  | expire id generation =>
      cases hact
      exact effect_expire h id generation
  | subscribe id filter qos =>
      cases hact
      exact .quiet rfl rfl rfl (h.router.granted_subscribe id filter qos)
  | subscribeShared group id filter qos =>
      cases hact
      exact .quiet rfl rfl rfl (h.router.granted_subscribeShared id filter qos group)
  | unroute id raw =>
      cases hact
      exact effect_unroute h id raw
  | route topic =>
      cases hact
      exact .quiet rfl rfl rfl (h.router.granted_route topic)
  | retain message =>
      cases hact
      exact .quiet rfl rfl rfl rfl
  | deliver targets topic payload msgQos now =>
      obtain ⟨f, hf, rfl⟩ := Option.map_eq_some_iff.mp hact
      exact (still_deliverAll hf).quiet.effect
  | replayRetained id messages granted now =>
      obtain ⟨⟨snapshot, h''⟩, hreplay, rfl⟩ := Option.map_eq_some_iff.mp hact
      exact (still_replayRetained hreplay).quiet.effect
  | tick now =>
      cases hact
      exact (still_tickAll h now).quiet.effect
  | acknowledge id ack =>
      cases hact
      exact (still_acknowledge h id ack).quiet.effect
  | qos2Seen id pid =>
      cases hact
      exact (still_qos2Seen h id pid).quiet.effect
  | qos2Release id pid =>
      cases hact
      exact (still_qos2Release h id pid).quiet.effect
  | send id packets =>
      cases hact
      exact (still_sendAll h id packets).quiet.effect
  | enqueue op =>
      cases hact
      exact (quiet_enqueue h op).effect
  | work => exact (still_work hact).quiet.effect

end Hub

/-! ## Consistency -/

namespace SessionTable

/-- Handles and client identifiers determine each other, and every handle in use
is below the counter. -/
structure Consistent (clientOf : ClientId → Option String) (idOf : AssocMap String ClientId)
    (nextId : Nat) : Prop where
  inverse : ∀ c i, idOf.lookup c = some i ↔ clientOf i = some c
  below : ∀ c i, clientOf i = some c → i < nextId

variable {clientOf : ClientId → Option String} {idOf : AssocMap String ClientId} {nextId : Nat}

/-- The next handle denotes nothing yet. -/
theorem Consistent.clientOf_nextId (hcons : Consistent clientOf idOf nextId) :
    clientOf nextId = none := by
  cases hnext : clientOf nextId with
  | none => rfl
  | some c => exact absurd (hcons.below c nextId hnext) (Nat.lt_irrefl _)

/-- Forgetting what a client's handle denotes and entering the client under the
next handle. The client may have had no handle at all. -/
theorem Consistent.enter (hcons : Consistent clientOf idOf nextId) {clientId : String}
    {old : Option ClientId} (hold : idOf.lookup clientId = old) :
    Consistent
      (Function.update (fun i => if some i = old then none else clientOf i) nextId (some clientId))
      (idOf.insert clientId nextId) (nextId + 1) where
  inverse c i := by
    rw [AssocMap.lookup_insert, Function.update_apply]
    have hinv := hcons.inverse c i
    by_cases hi : i = nextId
    · subst hi
      rw [hcons.clientOf_nextId] at hinv
      by_cases hc : c = clientId
      · simp [hc]
      · simp [hc, Ne.symm hc, hinv]
    · rw [if_neg hi]
      by_cases hc : c = clientId
      · -- the client's previous handle, if any, is exactly the one forgotten
        subst hc
        rw [hold] at hinv
        rw [if_pos rfl]
        constructor
        · intro h
          exact absurd (Option.some.inj h).symm hi
        · intro h
          split at h
          · cases h
          next hne => exact absurd (hinv.mpr h).symm hne
      · rw [if_neg hc, hinv]
        split
        next heq =>
          have hclient := (hcons.inverse clientId i).mp (hold.trans heq.symm)
          simp [hclient, Ne.symm hc]
        · rfl
  below c i hi := by
    rw [Function.update_apply] at hi
    split at hi
    next heq =>
      subst heq
      exact Nat.lt_succ_self _
    · split at hi
      · cases hi
      · exact Nat.lt_succ_of_lt (hcons.below c i hi)

/-- Forgetting a handle in both directions. -/
theorem Consistent.forget (hcons : Consistent clientOf idOf nextId) (old : ClientId) :
    Consistent (Function.update clientOf old none) (idOf.retain fun _ id => id ≠ old) nextId where
  inverse c i := by
    rw [AssocMap.lookup_retain, Option.filter_eq_some_iff, Function.update_apply, hcons.inverse]
    by_cases hi : i = old
    · simp [hi]
    · simp [hi]
  below c i hi := by
    rw [Function.update_apply] at hi
    split at hi
    · cases hi
    · exact hcons.below c i hi

end SessionTable

namespace Hub

def Consistent (h : Hub) : Prop :=
  SessionTable.Consistent h.sessions.clientOf h.sessions.idOf h.nextId

/-- The step lemma: every effect keeps the table consistent. -/
theorem Consistent.effect {held : SubscriptionKey → Option QoS} {h h' : Hub}
    (hcons : h.Consistent) (heffect : Effect held h h') : h'.Consistent := by
  unfold Consistent
  cases heffect with
  | quiet clientOf idOf nextId _ =>
      rw [clientOf, idOf, nextId]
      exact hcons
  | fresh clientId absent clientOf idOf nextId _ =>
      have henter := SessionTable.Consistent.enter hcons absent
      simp only [reduceCtorEq, if_false] at henter
      rw [clientOf, idOf, nextId]
      exact henter
  | replaced clientId old present clientOf idOf nextId _ =>
      have henter := SessionTable.Consistent.enter hcons present
      have hforget : (fun i => if some i = some old then none else h.sessions.clientOf i) =
          Function.update h.sessions.clientOf old none := by
        funext i
        simp [Function.update_apply]
      rw [clientOf, idOf, nextId, ← hforget]
      exact henter
  | removed old clientOf idOf nextId _ =>
      rw [clientOf, idOf, nextId]
      exact SessionTable.Consistent.forget hcons old

theorem Consistent.reaches {h h' : Hub} (hcons : h.Consistent) (hreaches : h.Reaches h') :
    h'.Consistent := by
  obtain ⟨sections, hrun⟩ := hreaches
  exact Machine.run_invariant (fun _ _ _ hcons hact => hcons.effect (act_effect hact)) hcons hrun

/-- The counter of handles never decreases. -/
theorem Effect.nextId_le {held : SubscriptionKey → Option QoS} {h h' : Hub}
    (heffect : Effect held h h') : h.nextId ≤ h'.nextId := by
  cases heffect with
  | quiet _ _ nextId _ => exact nextId.ge
  | fresh _ _ _ _ nextId _ => omega
  | replaced _ _ _ _ _ nextId _ => omega
  | removed _ _ _ nextId _ => exact nextId.ge

theorem nextId_le_of_reaches {h h' : Hub} (hreaches : h.Reaches h') : h.nextId ≤ h'.nextId := by
  obtain ⟨sections, hrun⟩ := hreaches
  have hstep : ∀ (h₁ : Hub) (a : Section) (h₂ : Hub), h.nextId ≤ h₁.nextId →
      h₁.act a = some h₂ → h.nextId ≤ h₂.nextId :=
    fun _ _ _ hle hact => hle.trans (act_effect hact).nextId_le
  exact Machine.run_invariant hstep (Nat.le_refl _) hrun

/-- A handle already given out never denotes another client. -/
theorem Effect.clientOf_old {held : SubscriptionKey → Option QoS} {h h' : Hub}
    (heffect : Effect held h h') {id : ClientId} (hid : id < h.nextId) {client : String}
    (hclient : h'.sessions.clientOf id = some client) : h.sessions.clientOf id = some client := by
  have hne : id ≠ h.nextId := Nat.ne_of_lt hid
  cases heffect with
  | quiet clientOf _ _ _ => rwa [clientOf] at hclient
  | fresh _ _ clientOf _ _ _ => rwa [clientOf, Function.update_of_ne hne] at hclient
  | replaced _ old _ clientOf _ _ _ =>
      rw [clientOf, Function.update_of_ne hne, Function.update_apply] at hclient
      split at hclient
      · cases hclient
      · exact hclient
  | removed old clientOf _ _ _ =>
      rw [clientOf, Function.update_apply] at hclient
      split at hclient
      · cases hclient
      · exact hclient

/-- A subscription held afterwards was held before, or is one of `held`. -/
theorem Effect.granted_ne_none {held : SubscriptionKey → Option QoS} {h h' : Hub}
    (heffect : Effect held h h') {key : SubscriptionKey}
    (hheld : h'.router.granted key ≠ none) : held key ≠ none ∨ h.router.granted key ≠ none := by
  cases heffect with
  | quiet _ _ _ router => exact Or.inl (router ▸ hheld)
  | fresh _ _ _ _ _ router => exact Or.inr (router ▸ hheld)
  | replaced _ old _ _ _ _ router =>
      rw [router] at hheld
      exact Or.inr (Router.granted_removeClient_ne_none _ _ hheld).2
  | removed old _ _ _ router =>
      rw [router] at hheld
      exact Or.inr (Router.granted_removeClient_ne_none _ _ hheld).2

/-! ## Startup -/

/-- Loading one persisted session enters its client under the next handle. -/
theorem clientOf_loadSession (st : Storage) (retry : RetryConfig) (now : Nat) (l : Loading)
    (ps : PersistedSession) :
    (loadSession st retry now l ps).sessions.clientOf =
      Function.update l.sessions.clientOf l.nextRaw (some ps.clientId) := by
  have hclient : (restoreSession st retry now ps).clientId = ps.clientId := by
    unfold restoreSession
    dsimp only
    split <;> rfl
  funext i
  simp only [SessionTable.clientOf, loadSession, AssocMap.lookup_insert, Function.update_apply]
  split
  · rw [Option.map_some, hclient]
  · rfl

theorem consistent_loadSessions (st : Storage) (retry : RetryConfig) (now : Nat)
    (sessions : List PersistedSession) (hdistinct : (sessions.map (·.clientId)).Nodup)
    (l : Loading) (habsent : ∀ ps ∈ sessions, l.sessions.idOf.lookup ps.clientId = none)
    (hcons : SessionTable.Consistent l.sessions.clientOf l.sessions.idOf l.nextRaw) :
    let loaded := sessions.foldl (loadSession st retry now) l
    SessionTable.Consistent loaded.sessions.clientOf loaded.sessions.idOf loaded.nextRaw := by
  induction sessions generalizing l with
  | nil => exact hcons
  | cons ps rest ih =>
      rw [List.map_cons, List.nodup_cons] at hdistinct
      apply ih hdistinct.2
      · intro ps' hps'
        have hne : ps'.clientId ≠ ps.clientId := fun heq =>
          hdistinct.1 (heq ▸ List.mem_map_of_mem hps')
        simp only [loadSession, AssocMap.lookup_insert, hne, if_false]
        exact habsent ps' (List.mem_cons_of_mem _ hps')
      · have henter := hcons.enter (habsent ps List.mem_cons_self)
        simp only [reduceCtorEq, if_false] at henter
        rw [clientOf_loadSession]
        exact henter

theorem Storage.nodup_loadSessions (st : Storage) :
    (st.loadSessions.map (·.clientId)).Nodup := by
  have hkeys : st.loadSessions.map (·.clientId) = st.sessions.toList.map Prod.fst := by
    simp [Storage.loadSessions, Function.comp_def]
  rw [hkeys, List.Nodup, List.pairwise_map]
  refine st.sessions.distinct_keys_toList.imp ?_
  intro a b hne heq
  exact hne (heq ▸ Std.ReflCmp.compare_self)

theorem consistent_new (storage : Option Storage) (retry : RetryConfig) (eventLogMax now : Nat) :
    (new storage retry eventLogMax now).Consistent := by
  have hempty : SessionTable.Consistent (SessionTable.clientOf ⟨∅, ∅, 0⟩) ∅ 1 :=
    ⟨fun c i => by simp [SessionTable.clientOf], fun c i hi => by simp [SessionTable.clientOf] at hi⟩
  cases storage with
  | none => exact hempty
  | some st =>
      exact consistent_loadSessions st retry now st.loadSessions (Storage.nodup_loadSessions st) _
        (fun ps _ => AList.lookup_empty _) hempty

/-! ## What connecting does in a consistent table -/

section Connect

variable {h : Hub} {clientId : String} (expirySecs now : Nat)

/-- A client without a session gets a fresh one. -/
theorem connect_of_absent (habsent : h.sessions.idOf.lookup clientId = none) (cleanStart : Bool) :
    h.connect clientId cleanStart expirySecs now =
      some (⟨h.nextId, h.sessions.generation + 1, false⟩,
        (h.bumpGeneration.register clientId expirySecs (h.sessions.generation + 1)).persistMeta
          clientId expirySecs) := by
  have hid : h.bumpGeneration.sessions.idOf.lookup clientId = none := habsent
  simp only [connect, hid]
  rfl

/-- A clean start replaces the client's session. -/
theorem connect_of_clean {id : ClientId} (hid : h.sessions.idOf.lookup clientId = some id) :
    h.connect clientId true expirySecs now =
      some (⟨h.nextId, h.sessions.generation + 1, false⟩,
        (((h.bumpGeneration.dropSession id).forgetPersisted clientId).register clientId expirySecs
          (h.sessions.generation + 1)).persistMeta clientId expirySecs) := by
  have hid' : h.bumpGeneration.sessions.idOf.lookup clientId = some id := hid
  simp only [connect, hid', if_true]
  rfl

/-- Otherwise the session is resumed. -/
theorem connect_of_resume {id : ClientId} {s : Session}
    (hid : h.sessions.idOf.lookup clientId = some id)
    (hs : h.sessions.byId.lookup id = some s) :
    h.connect clientId false expirySecs now =
      some (⟨id, h.sessions.generation + 1, true⟩,
        (h.bumpGeneration.setSession id (Session.retransmit
          { s with tx := some [], expirySecs, generation := h.sessions.generation + 1 }
          now h.retry)).persistMeta clientId expirySecs) := by
  have hid' : h.bumpGeneration.sessions.idOf.lookup clientId = some id := hid
  have hs' : h.bumpGeneration.sessions.byId.lookup id = some s := hs
  simp only [connect, hid', hs', Bool.false_eq_true, if_false]
  rfl

end Connect

/-- What the table promises in one state. -/
structure TableSound (h : Hub) : Prop where
  /-- The two indices are mutually inverse. -/
  inverse : ∀ c i, h.sessions.idOf.lookup c = some i ↔
    ∃ s, h.sessions.byId.lookup i = some s ∧ s.clientId = c
  /-- Every handle in use is below the counter. -/
  below : ∀ i s, h.sessions.byId.lookup i = some s → i < h.nextId
  /-- The counter never goes back. -/
  monotone : ∀ a h', h.act a = some h' → h.nextId ≤ h'.nextId
  /-- A CONNECT never hits the missing session, reports a resumed session exactly
  when there is one to resume, and otherwise takes a handle not in use. The handle is
  registered for the client, and the counter is past it from then on. -/
  connect : ∀ clientId cleanStart expirySecs now, ∃ c h',
    h.connect clientId cleanStart expirySecs now = some (c, h') ∧
      (c.sessionPresent = true ↔
        cleanStart = false ∧ ∃ i s, h.sessions.byId.lookup i = some s ∧ s.clientId = clientId) ∧
      (c.sessionPresent = false → c.id = h.nextId ∧ h.sessions.byId.lookup c.id = none ∧
        ∀ clientId', h.sessions.idOf.lookup clientId' ≠ some c.id) ∧
      (∃ s, h'.sessions.byId.lookup c.id = some s ∧ s.clientId = clientId) ∧
      h'.sessions.idOf.lookup clientId = some c.id ∧ c.id < h'.nextId

theorem clientOf_eq_some_iff {t : SessionTable} {i : ClientId} {c : String} :
    t.clientOf i = some c ↔ ∃ s, t.byId.lookup i = some s ∧ s.clientId = c :=
  Option.map_eq_some_iff

/-- A handle that was not given out yet. -/
theorem Consistent.lookup_eq_none {h : Hub} (hcons : h.Consistent) {id : ClientId}
    (hid : h.nextId ≤ id) : h.sessions.byId.lookup id = none := by
  cases hs : h.sessions.byId.lookup id with
  | none => rfl
  | some s =>
      have hlt := hcons.below s.clientId id (clientOf_eq_some_iff.mpr ⟨s, hs, rfl⟩)
      exact absurd hid (Nat.not_le.mpr hlt)

/-- The handle a CONNECT returns denotes its client. -/
theorem Consistent.clientOf_connect {h h' : Hub} (hcons : h.Consistent) {clientId : String}
    {cleanStart : Bool} {expirySecs now : Nat} {c : Connected}
    (hconnect : h.connect clientId cleanStart expirySecs now = some (c, h')) :
    h'.sessions.clientOf c.id = some clientId := by
  rcases connect_cases hconnect with
    ⟨-, rfl, rfl⟩ | ⟨id, -, -, rfl, rfl⟩ | ⟨id, s, hid, -, hs, rfl, rfl⟩
  · rw [(quiet_persistMeta _ clientId expirySecs).clientOf, clientOf_register]
    exact Function.update_self ..
  · rw [(quiet_persistMeta _ clientId expirySecs).clientOf, clientOf_register]
    exact Function.update_self ..
  · have hclient := (hcons.inverse clientId id).mp hid
    have hs' : h.bumpGeneration.sessions.byId.lookup id = some s := hs
    rw [(quiet_persistMeta _ clientId expirySecs).clientOf]
    refine (congrFun (quiet_setSession hs' ?_).clientOf id).trans hclient
    rfl

/-- What the returned hub has under the handle that a CONNECT returns. -/
theorem Consistent.registered_connect {h h' : Hub} (hcons : h.Consistent) {clientId : String}
    {cleanStart : Bool} {expirySecs now : Nat} {c : Connected}
    (hconnect : h.connect clientId cleanStart expirySecs now = some (c, h')) :
    (∃ s, h'.sessions.byId.lookup c.id = some s ∧ s.clientId = clientId) ∧
      h'.sessions.idOf.lookup clientId = some c.id ∧ c.id < h'.nextId := by
  have hcons' : h'.Consistent := hcons.effect (effect_connect hconnect)
  have hclient := hcons.clientOf_connect hconnect
  exact ⟨clientOf_eq_some_iff.mp hclient, (hcons'.inverse clientId c.id).mpr hclient,
    hcons'.below clientId c.id hclient⟩

theorem Consistent.tableSound {h : Hub} (hcons : h.Consistent) : h.TableSound where
  inverse c i := (hcons.inverse c i).trans clientOf_eq_some_iff
  below i s hi := hcons.below s.clientId i (clientOf_eq_some_iff.mpr ⟨s, hi, rfl⟩)
  monotone a h' hact := (act_effect hact).nextId_le
  connect clientId cleanStart expirySecs now := by
    have hnext : h.sessions.byId.lookup h.nextId = none :=
      Option.map_eq_none_iff.mp hcons.clientOf_nextId
    have hfresh : ∀ clientId', h.sessions.idOf.lookup clientId' ≠ some h.nextId := by
      intro clientId' hid
      have hclient := (hcons.inverse clientId' h.nextId).mp hid
      rw [hcons.clientOf_nextId] at hclient
      cases hclient
    cases hlookup : h.sessions.idOf.lookup clientId with
    | none =>
        have hconnect := connect_of_absent expirySecs now hlookup cleanStart
        refine ⟨_, _, hconnect, ?_, ?_, hcons.registered_connect hconnect⟩
        · simp only [Bool.false_eq_true, false_iff, not_and, not_exists]
          intro _ i s hs hc
          have hsome := (hcons.inverse clientId i).mpr (clientOf_eq_some_iff.mpr ⟨s, hs, hc⟩)
          rw [hlookup] at hsome
          cases hsome
        · exact fun _ => ⟨rfl, hnext, hfresh⟩
    | some id =>
        obtain ⟨s, hs, hc⟩ := clientOf_eq_some_iff.mp ((hcons.inverse clientId id).mp hlookup)
        cases cleanStart with
        | true =>
            have hconnect := connect_of_clean expirySecs now hlookup
            refine ⟨_, _, hconnect, ?_, ?_, hcons.registered_connect hconnect⟩
            · simp
            · exact fun _ => ⟨rfl, hnext, hfresh⟩
        | false =>
            have hconnect := connect_of_resume expirySecs now hlookup hs
            refine ⟨_, _, hconnect, ?_, ?_, hcons.registered_connect hconnect⟩
            · simp only [true_iff, true_and]
              exact ⟨id, s, hs, hc⟩
            · intro hpresent
              cases hpresent

/-- In a consistent table a client's session is the one under its handle. -/
theorem Consistent.filter_holder {h : Hub} (hcons : h.Consistent) (clientId : String) :
    (fun i => (h.sessions.holder i).filter fun a => a.clientId ≠ clientId) =
      fun i => if h.sessions.idOf.lookup clientId = some i then none else h.sessions.holder i := by
  funext i
  have hinverse := hcons.inverse clientId i
  rw [SessionTable.clientOf_eq_holder] at hinverse
  cases hholder : h.sessions.holder i with
  | none => simp
  | some a =>
      rw [hholder, Option.map_some, Option.some_inj] at hinverse
      by_cases hclient : a.clientId = clientId
      · rw [if_pos (hinverse.mpr hclient)]
        simp [hclient]
      · rw [if_neg (hclient ∘ hinverse.mp)]
        simp [hclient]

/-- A CONNECT takes the client's session away from whoever had it, and attaches
one at the next generation. -/
theorem Consistent.holder_connect {h h' : Hub} (hcons : h.Consistent) {clientId : String}
    {cleanStart : Bool} {expirySecs now : Nat} {c : Connected}
    (hconnect : h.connect clientId cleanStart expirySecs now = some (c, h')) :
    h'.sessions.holder = Function.update
        (fun i => (h.sessions.holder i).filter fun a => a.clientId ≠ clientId) c.id
        (some ⟨clientId, expirySecs, c.generation, true⟩) ∧
      c.generation = h.sessions.generation + 1 ∧
      h'.sessions.generation = h.sessions.generation + 1 := by
  rw [hcons.filter_holder clientId]
  have hregister (h₁ : Hub) (generation : Nat) :
      (h₁.register clientId expirySecs generation).sessions.holder = Function.update
        h₁.sessions.holder h₁.nextId (some ⟨clientId, expirySecs, generation, true⟩) := by
    funext i
    simp only [SessionTable.holder, register, AssocMap.lookup_insert, Function.update_apply]
    split <;> rfl
  rcases connect_cases hconnect with
    ⟨hnone, rfl, rfl⟩ | ⟨id, hid, -, rfl, rfl⟩ | ⟨id, s, hid, -, hs, rfl, rfl⟩
  · have hstill := still_persistMeta (h.bumpGeneration.register clientId expirySecs
      (h.sessions.generation + 1)) clientId expirySecs
    refine ⟨?_, rfl, hstill.generation⟩
    rw [hstill.holder, hregister]
    simp only [hnone, reduceCtorEq, if_false]
    rfl
  · have hstill := still_persistMeta (((h.bumpGeneration.dropSession id).forgetPersisted
      clientId).register clientId expirySecs (h.sessions.generation + 1)) clientId expirySecs
    refine ⟨?_, rfl, hstill.generation⟩
    rw [hstill.holder, hregister]
    congr 1
    funext i
    simp only [hid, Option.some_inj, SessionTable.holder, dropSession, forgetPersisted, enqueue,
      AssocMap.lookup_erase, eq_comm]
    split <;> rfl
  · have hs' : h.bumpGeneration.sessions.byId.lookup id = some s := hs
    have hclient : s.clientId = clientId := by
      obtain ⟨t, ht, hclient⟩ := clientOf_eq_some_iff.mp ((hcons.inverse clientId id).mp hid)
      rw [Option.some.inj (hs.symm.trans ht), hclient]
    have hstill := still_persistMeta (h.bumpGeneration.setSession id (Session.retransmit
      { s with tx := some [], expirySecs, generation := h.sessions.generation + 1 }
      now h.retry)) clientId expirySecs
    refine ⟨?_, rfl, hstill.generation⟩
    rw [hstill.holder, holder_setSession _ hs']
    funext i
    simp only [hid, Function.update_apply, Option.some_inj, Session.holder, Session.retransmit,
      Option.map_some, Option.isSome_some, hclient]
    split
    · rfl
    next hne => exact (if_neg (Ne.symm hne)).symm

/-- A handle in use that a CONNECT returns was its client's already. -/
theorem Consistent.holder_connect_own {h h' : Hub} (hcons : h.Consistent) {clientId : String}
    {cleanStart : Bool} {expirySecs now : Nat} {c : Connected}
    (hconnect : h.connect clientId cleanStart expirySecs now = some (c, h')) {a : Holder}
    (ha : h.sessions.holder c.id = some a) : a.clientId = clientId := by
  have hclient : h.sessions.clientOf c.id = some a.clientId := by
    rw [SessionTable.clientOf_eq_holder, ha, Option.map_some]
  have hlt := hcons.below _ _ hclient
  have hold := (effect_connect hconnect).clientOf_old hlt (hcons.clientOf_connect hconnect)
  exact Option.some.inj (hclient.symm.trans hold)

/-- The table is sound in every state of every interleaving of sections, starting
from an empty hub or from one loaded from any store. -/
theorem tableSound_always (storage : Option Storage) (retry : RetryConfig)
    (eventLogMax now : Nat) (sections : List Section) :
    Machine.Always act TableSound (new storage retry eventLogMax now) sections := by
  apply Machine.always_of_invariant Consistent
  · exact fun h a h' hcons hact => hcons.effect (act_effect hact)
  · exact fun h hcons => hcons.tableSound
  · exact consistent_new storage retry eventLogMax now

end Hub

end Relay
