import Relay.Server.SessionTable

/-! # Stale handles

A connection leaves with the handle its connect returned, and an expiry timer fires
with the handle of the detach that armed it, both arbitrarily late. Generations
only grow, and a session carries the newest generation given to its client, so a
handle that a later connect of the client has overtaken finds no session at its
generation.
-/

namespace Relay

/-- What callers have learned about handles. -/
inductive HandleEvent where
  /-- A session loaded at startup, offline at generation 0. -/
  | loaded (clientId : String) (id : ClientId)
  | connected (clientId : String) (id : ClientId) (generation : Nat)
  | detached (id : ClientId) (generation : Nat)
deriving DecidableEq

namespace HandleEvent

def generation : HandleEvent → Nat
  | loaded _ _ => 0
  | connected _ _ generation => generation
  | detached _ generation => generation

/-- The client that a handle is given to, and the handle's identifier. -/
def issued? : HandleEvent → Option (String × ClientId)
  | loaded clientId id => some (clientId, id)
  | connected clientId id _ => some (clientId, id)
  | detached _ _ => none

/-- The client of a connect. -/
def connects? : HandleEvent → Option String
  | connected clientId _ _ => some clientId
  | _ => none

/-- A connect that returned this handle. -/
def Returned (id : ClientId) (generation : Nat) : HandleEvent → Prop
  | connected _ id' generation' => id' = id ∧ generation' = generation
  | _ => False

/-- A detach of this handle, or its loading at startup: either arms an expiry timer. -/
def Arms (id : ClientId) (generation : Nat) : HandleEvent → Prop
  | loaded _ id' => id' = id ∧ generation = 0
  | detached id' generation' => id' = id ∧ generation' = generation
  | connected _ _ _ => False

instance (id : ClientId) (generation : Nat) : DecidablePred (Returned id generation)
  | connected _ id' generation' =>
      inferInstanceAs (Decidable (id' = id ∧ generation' = generation))
  | loaded _ _ | detached _ _ => inferInstanceAs (Decidable False)

instance (id : ClientId) (generation : Nat) : DecidablePred (Arms id generation)
  | loaded _ id' => inferInstanceAs (Decidable (id' = id ∧ generation = 0))
  | detached id' generation' =>
      inferInstanceAs (Decidable (id' = id ∧ generation' = generation))
  | connected _ _ _ => inferInstanceAs (Decidable False)

theorem Returned.generation_eq {id : ClientId} {generation : Nat} {e : HandleEvent}
    (hreturned : e.Returned id generation) : e.generation = generation := by
  cases e with
  | connected clientId id' generation' => exact hreturned.2
  | loaded => exact hreturned.elim
  | detached => exact hreturned.elim

theorem Arms.generation_eq {id : ClientId} {generation : Nat} {e : HandleEvent}
    (harms : e.Arms id generation) : e.generation = generation := by
  cases e with
  | loaded clientId id' => exact harms.2.symm
  | detached id' generation' => exact harms.2
  | connected => exact harms.elim

end HandleEvent

/-- The hub and what happened to handles, the latest event first. -/
structure Handles where
  hub : Hub
  log : List HandleEvent

/-- A call on handles, or any other section in between. -/
inductive HandleCall where
  | connect (clientId : String) (cleanStart : Bool) (expirySecs now : Nat)
  | detach (id : ClientId) (generation : Nat)
  | purge (id : ClientId) (generation : Nat)
  | other (a : Section)

namespace Handles

def start (storage : Option Storage) (retry : RetryConfig) (eventLogMax now : Nat) : Handles :=
  let hub := Hub.new storage retry eventLogMax now
  ⟨hub, hub.sessions.byId.entries.map fun e => .loaded e.2.clientId e.1⟩

/-- A detach uses the handle of an earlier connect, a purge that of an earlier detach
or of startup. The dead letters of a purge follow its locked part as other sections. -/
def step (st : Handles) : HandleCall → Option Handles
  | .connect clientId cleanStart expirySecs now => do
      let (c, h) ← st.hub.connect clientId cleanStart expirySecs now
      some ⟨h, .connected clientId c.id c.generation :: st.log⟩
  | .detach id generation =>
      if ∃ e ∈ st.log, e.Returned id generation then
        some ⟨st.hub.detach id generation, .detached id generation :: st.log⟩
      else none
  | .purge id generation =>
      if ∃ e ∈ st.log, e.Arms id generation then
        some ⟨(st.hub.expire id generation).2, st.log⟩
      else none
  | .other a => if a.moves then none else (st.hub.act a).map fun h => ⟨h, st.log⟩

/-- What stale handles can do in one state: nothing. -/
structure Harmless (st : Handles) : Prop where
  /-- A handle that a later connect of its client has overtaken changes nothing. -/
  superseded : ∀ later e earlier, st.log = later ++ e :: earlier →
    ∀ clientId id, e.issued? = some (clientId, id) →
      (∃ e' ∈ later, e'.connects? = some clientId) →
      st.hub.detach id e.generation = st.hub ∧
        ∀ clock, st.hub.purgeIfIdle id e.generation clock = some st.hub
  /-- A session that an expiry removes was not connected to since the timer was armed. -/
  removed : ∀ later e earlier, st.log = later ++ e :: earlier →
    ∀ id generation, e.Arms id generation →
      ∀ i s, st.hub.sessions.byId.lookup i = some s →
        (st.hub.expire id generation).2.sessions.byId.lookup i = none →
        ∀ e' ∈ later, e'.connects? ≠ some s.clientId

/-- How the log and the table fit together. -/
structure Tracked (st : Handles) : Prop where
  consistent : st.hub.Consistent
  bounded : ∀ e ∈ st.log, e.generation ≤ st.hub.sessions.generation
  ordered : st.log.Pairwise fun later earlier =>
    ∀ clientId, later.connects? = some clientId → earlier.generation < later.generation
  newest : ∀ i a, st.hub.sessions.holder i = some a →
    ∀ e ∈ st.log, e.connects? = some a.clientId → e.generation ≤ a.generation
  owner : ∀ e ∈ st.log, ∀ clientId id, e.issued? = some (clientId, id) →
    id < st.hub.nextId ∧ ∀ a, st.hub.sessions.holder id = some a → a.clientId = clientId

variable {st st' : Handles}

/-- A session at the generation of a log entry is not overtaken by a later connect. -/
theorem Tracked.not_overtaken (htracked : st.Tracked) {later earlier : List HandleEvent}
    {e : HandleEvent} (hlog : st.log = later ++ e :: earlier) {i : ClientId} {a : Holder}
    (hholder : st.hub.sessions.holder i = some a) (hgen : a.generation = e.generation) :
    ∀ e' ∈ later, e'.connects? ≠ some a.clientId := by
  intro e' he' hconnects
  have hordered := htracked.ordered
  rw [hlog, List.pairwise_append] at hordered
  have hlt := hordered.2.2 e' he' e List.mem_cons_self a.clientId hconnects
  have hmem : e' ∈ st.log := hlog ▸ List.mem_append_left _ he'
  have hle := htracked.newest i a hholder e' hmem hconnects
  omega

theorem Tracked.harmless (htracked : st.Tracked) : st.Harmless where
  superseded := by
    rintro later e earlier hlog clientId id hissued ⟨e', he', hconnects⟩
    have hmem : e ∈ st.log := by
      rw [hlog]
      exact List.mem_append_right _ List.mem_cons_self
    have hstale : st.hub.Superseded id e.generation := by
      intro a hholder hgen
      have howner := (htracked.owner e hmem clientId id hissued).2 a hholder
      exact htracked.not_overtaken hlog hholder hgen e' he' (howner ▸ hconnects)
    exact ⟨hstale.detach, hstale.purgeIfIdle⟩
  removed := by
    intro later e earlier hlog id generation harms i s hs hgone
    have hholder : st.hub.sessions.holder i = some s.holder := congrArg (Option.map _) hs
    have hleft : (st.hub.expire id generation).2.sessions.holder i = none :=
      congrArg (Option.map _) hgone
    -- only the session under the purged handle can go, and only at its generation
    rw [Hub.holder_expire, Function.update_apply] at hleft
    split at hleft
    next heq =>
      subst heq
      rw [hholder, Option.bind_some] at hleft
      have hidle := Holder.of_expired_eq_none hleft
      exact htracked.not_overtaken hlog hholder (hidle.1.trans harms.generation_eq.symm)
    next =>
      rw [hholder] at hleft
      cases hleft

/-! ## Steps -/

/-- Sessions that end or go offline keep the fit. -/
theorem Tracked.shrink (htracked : st.Tracked) {h : Hub} (hcons : h.Consistent)
    (hgeneration : h.sessions.generation = st.hub.sessions.generation)
    (hnext : st.hub.nextId ≤ h.nextId)
    (hholder : ∀ i a, h.sessions.holder i = some a → ∃ b, st.hub.sessions.holder i = some b ∧
      a.clientId = b.clientId ∧ a.generation = b.generation) :
    Tracked ⟨h, st.log⟩ where
  consistent := hcons
  bounded e he := hgeneration ▸ htracked.bounded e he
  ordered := htracked.ordered
  newest i a ha e he hconnects := by
    obtain ⟨b, hb, hclient, hgen⟩ := hholder i a ha
    rw [hgen]
    exact htracked.newest i b hb e he (hclient ▸ hconnects)
  owner e he clientId id hissued := by
    obtain ⟨hlt, howner⟩ := htracked.owner e he clientId id hissued
    refine ⟨hlt.trans_le hnext, fun a ha => ?_⟩
    obtain ⟨b, hb, hclient, -⟩ := hholder id a ha
    exact hclient.trans (howner b hb)

/-- Noting a detach. -/
theorem Tracked.note (htracked : st.Tracked) {id : ClientId} {generation : Nat}
    (hle : generation ≤ st.hub.sessions.generation) :
    Tracked ⟨st.hub, .detached id generation :: st.log⟩ where
  consistent := htracked.consistent
  bounded := List.forall_mem_cons.mpr ⟨hle, htracked.bounded⟩
  ordered := List.pairwise_cons.mpr ⟨fun _ _ _ hconnects => (by cases hconnects), htracked.ordered⟩
  newest i a ha := List.forall_mem_cons.mpr
    ⟨fun hconnects => (by cases hconnects), htracked.newest i a ha⟩
  owner := List.forall_mem_cons.mpr ⟨fun _ _ hissued => (by cases hissued), htracked.owner⟩

theorem Tracked.connect (htracked : st.Tracked) {clientId : String} {cleanStart : Bool}
    {expirySecs now : Nat} {c : Connected} {h : Hub}
    (hconnect : st.hub.connect clientId cleanStart expirySecs now = some (c, h)) :
    Tracked ⟨h, .connected clientId c.id c.generation :: st.log⟩ := by
  have hcons := htracked.consistent
  have heffect := Hub.effect_connect hconnect
  have hcons' := hcons.effect heffect
  obtain ⟨hholder, hgen, hgeneration⟩ := hcons.holder_connect hconnect
  have hbelow : ∀ e ∈ st.log, e.generation < c.generation := fun e he => by
    have := htracked.bounded e he
    omega
  refine ⟨hcons', ?_, ?_, ?_, ?_⟩
  · rw [List.forall_mem_cons]
    refine ⟨(hgen.trans hgeneration.symm).le, fun e he => ?_⟩
    have := htracked.bounded e he
    dsimp only
    omega
  · exact List.pairwise_cons.mpr ⟨fun e he _ _ => hbelow e he, htracked.ordered⟩
  · intro i a ha
    dsimp only at ha
    rw [hholder, Function.update_apply] at ha
    split at ha
    · cases ha
      exact List.forall_mem_cons.mpr ⟨fun _ => le_rfl, fun e he _ => (hbelow e he).le⟩
    · obtain ⟨ha, hne⟩ := Option.filter_eq_some_iff.mp ha
      refine List.forall_mem_cons.mpr ⟨fun hconnects => ?_, htracked.newest i a ha⟩
      -- a session of another client
      have heq : clientId = a.clientId := Option.some.inj hconnects
      simp [heq] at hne
  · have hclient : h.sessions.clientOf c.id = some clientId := hcons.clientOf_connect hconnect
    have howner : ∀ e ∈ HandleEvent.connected clientId c.id c.generation :: st.log,
        ∀ clientId id, e.issued? = some (clientId, id) →
          id < h.nextId ∧ ∀ client, h.sessions.clientOf id = some client → client = clientId := by
      rw [List.forall_mem_cons]
      constructor
      · rintro _ _ ⟨⟩
        exact ⟨hcons'.below _ _ hclient, fun client hc => Option.some.inj (hc.symm.trans hclient)⟩
      · intro e he owner id hissued
        obtain ⟨hlt, howner⟩ := htracked.owner e he owner id hissued
        refine ⟨hlt.trans_le heffect.nextId_le, fun client hc => ?_⟩
        have hold := heffect.clientOf_old hlt hc
        rw [SessionTable.clientOf_eq_holder] at hold
        obtain ⟨a, ha, rfl⟩ := Option.map_eq_some_iff.mp hold
        exact howner a ha
    intro e he owner id hissued
    obtain ⟨hlt, howner⟩ := howner e he owner id hissued
    refine ⟨hlt, fun a ha => howner a.clientId ?_⟩
    rw [SessionTable.clientOf_eq_holder, ha, Option.map_some]

/-- The step lemma. -/
theorem Tracked.step (htracked : st.Tracked) {call : HandleCall}
    (hstep : st.step call = some st') : st'.Tracked := by
  cases call with
  | connect clientId cleanStart expirySecs now =>
      obtain ⟨⟨c, h⟩, hconnect, heq⟩ := Option.bind_eq_some_iff.mp hstep
      cases heq
      exact htracked.connect hconnect
  | detach id generation =>
      simp only [Handles.step] at hstep
      split at hstep
      next hreturned =>
        cases hstep
        obtain ⟨e, he, hreturned⟩ := hreturned
        have heffect := Hub.effect_detach st.hub id generation
        have hgeneration := Hub.generation_detach st.hub id generation
        have hshrunk := htracked.shrink (htracked.consistent.effect heffect) hgeneration
          heffect.nextId_le (fun i a ha => ?_)
        · refine hshrunk.note ?_
          rw [hgeneration, ← hreturned.generation_eq]
          exact htracked.bounded e he
        · rw [Hub.holder_detach, Function.update_apply] at ha
          split at ha
          next heq =>
            subst heq
            obtain ⟨b, hb, hleft⟩ := Option.bind_eq_some_iff.mp ha
            exact ⟨b, hb, Holder.of_detached hleft⟩
          next => exact ⟨a, ha, rfl, rfl⟩
      · cases hstep
  | purge id generation =>
      simp only [Handles.step] at hstep
      split at hstep
      · cases hstep
        have heffect := Hub.effect_expire st.hub id generation
        refine htracked.shrink (htracked.consistent.effect heffect)
          (Hub.generation_expire st.hub id generation) heffect.nextId_le (fun i a ha => ?_)
        rw [Hub.holder_expire, Function.update_apply] at ha
        split at ha
        next heq =>
          subst heq
          obtain ⟨b, hb, hleft⟩ := Option.bind_eq_some_iff.mp ha
          exact ⟨b, hb, by rw [Holder.of_expired hleft], by rw [Holder.of_expired hleft]⟩
        next => exact ⟨a, ha, rfl, rfl⟩
      · cases hstep
  | other a =>
      simp only [Handles.step] at hstep
      split at hstep
      · cases hstep
      next hmoves =>
        obtain ⟨h, hact, rfl⟩ := Option.map_eq_some_iff.mp hstep
        have hunmoved := Hub.unmoved_act hact (Bool.eq_false_iff.mpr hmoves)
        have heffect := Hub.act_effect hact
        refine htracked.shrink (htracked.consistent.effect heffect) hunmoved.generation
          heffect.nextId_le (fun i a ha => ⟨a, ?_, rfl, rfl⟩)
        rwa [← hunmoved.holder]

theorem tracked_start (storage : Option Storage) (retry : RetryConfig) (eventLogMax now : Nat) :
    (start storage retry eventLogMax now).Tracked := by
  have hcons := Hub.consistent_new storage retry eventLogMax now
  have hloaded : ∀ e ∈ (start storage retry eventLogMax now).log, ∃ id s,
      (Hub.new storage retry eventLogMax now).sessions.byId.lookup id = some s ∧
        e = .loaded s.clientId id := by
    intro e he
    obtain ⟨⟨id, s⟩, hentry, rfl⟩ := List.mem_map.mp he
    exact ⟨id, s, AssocMap.mem_entries_iff.mp hentry, rfl⟩
  have hconnects : ∀ e ∈ (start storage retry eventLogMax now).log, e.connects? = none := by
    intro e he
    obtain ⟨id, s, -, rfl⟩ := hloaded e he
    rfl
  refine ⟨hcons, ?_, ?_, ?_, ?_⟩
  · intro e he
    obtain ⟨id, s, -, rfl⟩ := hloaded e he
    exact Nat.zero_le _
  · refine List.pairwise_of_forall_mem_list fun e he _ _ _ hsome => ?_
    rw [hconnects e he] at hsome
    cases hsome
  · intro i a _ e he hsome
    rw [hconnects e he] at hsome
    cases hsome
  · intro e he clientId id hissued
    obtain ⟨id', s, hs, rfl⟩ := hloaded e he
    cases hissued
    refine ⟨hcons.below s.clientId _ (Hub.clientOf_eq_some_iff.mpr ⟨s, hs, rfl⟩), fun a ha => ?_⟩
    obtain ⟨s', hs', rfl⟩ := Option.map_eq_some_iff.mp ha
    rw [Option.some.inj (hs'.symm.trans hs)]
    rfl

/-- Over every interleaving of connects, detaches, expiries and other sections, from
any store: handles that were overtaken change nothing, and an expiry removes only
sessions nobody connected to since its timer was armed. -/
theorem harmless_always (storage : Option Storage) (retry : RetryConfig) (eventLogMax now : Nat)
    (calls : List HandleCall) :
    Machine.Always step Harmless (start storage retry eventLogMax now) calls := by
  apply Machine.always_of_invariant Tracked
  · exact fun st call st' htracked hstep => htracked.step hstep
  · exact fun st htracked => htracked.harmless
  · exact tracked_start storage retry eventLogMax now

end Handles

end Relay
