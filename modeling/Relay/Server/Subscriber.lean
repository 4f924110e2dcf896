import Relay.Server.Identifiers
import Relay.Server.SessionTable

/-! # The hub and the client of one session

The hub runs its sections in any order, for all its clients; one of them is the client of
the session under a fixed handle and keeps to the protocol. Whatever the hub does to that
session is a step of the link between the session and the client.
-/

namespace Relay

/-- Not a reply of the client under the handle; and what a replay sends is at QoS 0. -/
def Section.unasked (id : ClientId) : Section → Bool
  | .acknowledge id' _ => id' ≠ id
  | .send id' packets => id' ≠ id || packets.all Packet.isQos0
  | _ => true

/-- What a section is for the link of the session under a handle. -/
def Section.linkSteps (h : Hub) (id : ClientId) (s : Session) : Section → List LinkStep
  | .connect clientId cleanStart _ now =>
      if h.sessions.idOf.lookup clientId = some id ∧ cleanStart = false then [.resume now] else []
  | sec => (sec.touches h id s).map .handle

structure Subscriber where
  hub : Hub
  link : Link

inductive SubscriberStep where
  | act (sec : Section)
  | read
  | answer
  | answerLate (k : Nat)

namespace Subscriber

variable (id : ClientId) (b : Subscriber)

def follow (sec : Section) : Link :=
  match b.hub.sessions.byId.lookup id with
  | none => b.link
  | some s => (Machine.run (Link.step b.hub.retry) b.link (sec.linkSteps b.hub id s)).getD b.link

/-- The hub handles a reply of the client. -/
def acknowledge (ack : Option Ack) (st : LinkStep) : Option Subscriber :=
  ack.bind fun ack => (b.hub.act (.acknowledge id ack)).bind fun hub =>
    (b.link.step b.hub.retry st).map fun link => ⟨hub, link⟩

def step : SubscriberStep → Option Subscriber
  | .act sec =>
      if sec.unasked id then (b.hub.act sec).map fun hub => ⟨hub, b.follow id sec⟩ else none
  | .read => (b.link.step b.hub.retry .read).map fun link => { b with link := link }
  | .answer =>
      if (b.hub.sessions.byId.lookup id).isSome then
        b.acknowledge id b.link.client.replies.head? .answer
      else none
  | .answerLate k =>
      if (b.hub.sessions.byId.lookup id).isSome then
        b.acknowledge id b.link.client.late[k]? (.answerLate k)
      else none

end Subscriber

/-! ## The link follows the session -/

namespace Link

variable {cfg : RetryConfig} {l : Link} {s t : Session}

theorem exists_handle (halike : l.session.Alike s) {hd : Handling} {out : Session × List DeadMsg}
    (hhandle : s.handle cfg hd = some out) :
    ∃ l', l.handle cfg hd = some l' ∧ l'.session.Alike out.1 := by
  obtain ⟨t, ht, halike'⟩ := halike.symm.handle hhandle
  exact ⟨_, by rw [Link.handle, ht]; rfl, halike'.symm⟩

/-- The link can follow whatever the hub does to the session. -/
theorem exists_run_handle (halike : l.session.Alike s) {handlings : List Handling}
    (hunasked : ∀ hd ∈ handlings, hd.unasked = true) (hrun : s.handleAll cfg handlings = some t) :
    ∃ l', Machine.run (step cfg) l (handlings.map .handle) = some l' ∧ l'.session.Alike t := by
  induction handlings generalizing l s with
  | nil =>
      cases hrun
      exact ⟨l, rfl, halike⟩
  | cons hd rest ih =>
      obtain ⟨hfirst, hrest⟩ := List.forall_mem_cons.mp hunasked
      obtain ⟨s₁, hs₁, hrun₁⟩ := Machine.run_cons_eq_some.mp hrun
      obtain ⟨out, hout, rfl⟩ := Option.map_eq_some_iff.mp hs₁
      obtain ⟨l₁, hl₁, halike₁⟩ := exists_handle halike hout
      obtain ⟨l', hl', halike'⟩ := ih halike₁ hrest hrun₁
      refine ⟨l', ?_, halike'⟩
      rw [List.map_cons, Machine.run_cons_eq_some]
      exact ⟨l₁, by rw [step, if_pos hfirst, hl₁], hl'⟩

/-- A section that does not handle a reply of the client is a run of the link. -/
theorem exists_run_linkSteps (h : Hub) (id : ClientId) (halike : l.session.Alike s) {sec : Section}
    (hunasked : sec.unasked id = true) (hrun : s.handleAll cfg (sec.touches h id s) = some t) :
    ∃ l', Machine.run (step cfg) l (sec.linkSteps h id s) = some l' ∧ l'.session.Alike t := by
  have hplain : (∀ hd ∈ sec.touches h id s, hd.unasked = true) →
      sec.linkSteps h id s = (sec.touches h id s).map .handle →
      ∃ l', Machine.run (step cfg) l (sec.linkSteps h id s) = some l' ∧ l'.session.Alike t := by
    intro hall heq
    rw [heq]
    exact exists_run_handle halike hall hrun
  cases sec with
  | connect clientId cleanStart expirySecs now =>
      rw [Section.touches] at hrun
      rw [Section.linkSteps]
      split at hrun
      next hresume =>
        rw [if_pos hresume]
        obtain ⟨s₁, hs₁, hrun₁⟩ := Machine.run_cons_eq_some.mp hrun
        cases hs₁
        obtain ⟨s₂, hs₂, hrun₂⟩ := Machine.run_cons_eq_some.mp hrun₁
        cases hs₂
        cases hrun₂
        refine ⟨_, rfl, ?_⟩
        rw [halike]
        rfl
      next hresume =>
        rw [if_neg hresume]
        cases hrun
        exact ⟨l, rfl, halike⟩
  | acknowledge id' ack =>
      refine hplain ?_ rfl
      have hne : id' ≠ id := of_decide_eq_true hunasked
      simp [Section.touches, hne]
  | send id' packets =>
      refine hplain ?_ rfl
      intro hd hmem
      rw [Section.touches] at hmem
      split at hmem
      next hid =>
        rw [List.mem_singleton.mp hmem]
        simpa [Section.unasked, hid, Handling.unasked] using hunasked
      next => cases hmem
  | detach id' generation =>
      refine hplain ?_ rfl
      intro hd hmem
      rw [Section.touches] at hmem
      split at hmem
      · rw [List.mem_singleton.mp hmem]; rfl
      · cases hmem
  | expire id' generation =>
      refine hplain ?_ rfl
      intro hd hmem
      rw [Section.touches] at hmem
      split at hmem
      · rw [List.mem_singleton.mp hmem]; rfl
      · cases hmem
  | tick now =>
      refine hplain ?_ rfl
      intro hd hmem
      rw [Section.touches] at hmem
      split at hmem
      · cases hmem
      · rw [List.mem_singleton.mp hmem]; rfl
  | deliver targets topic payload msgQos now =>
      refine hplain ?_ rfl
      intro hd hmem
      obtain ⟨target, -, rfl⟩ := List.mem_map.mp hmem
      rfl
  | replayRetained id' messages granted now =>
      refine hplain ?_ rfl
      intro hd hmem
      rw [Section.touches] at hmem
      split at hmem
      · obtain ⟨m, -, rfl⟩ := List.mem_map.mp hmem
        rfl
      · cases hmem
  | _ => exact hplain (List.forall_mem_nil _) rfl

end Link

namespace Subscriber

variable {id : ClientId} {b b' : Subscriber} {I : Link → Prop}

/-- The link is that of the session under the handle, and has the invariant. -/
structure Follows (id : ClientId) (I : Link → Prop) (b : Subscriber) : Prop where
  consistent : b.hub.Consistent
  known : id < b.hub.nextId
  alike : ∀ s, b.hub.sessions.byId.lookup id = some s → b.link.session.Alike s
  inv : I b.link

theorem Follows.act (hb : b.Follows id I) {sec : Section} {hub : Hub}
    (hact : b.hub.act sec = some hub) {link : Link} (hinv : I link)
    (halike : ∀ s t, b.hub.sessions.byId.lookup id = some s →
      s.handleAll b.hub.retry (sec.touches b.hub id s) = some t → link.session.Alike t) :
    (⟨hub, link⟩ : Subscriber).Follows id I := by
  have heffect := Hub.act_effect hact
  have htouched := Hub.touched_act (hb.consistent.lookup_eq_none (Nat.le_refl _)) hact
  refine ⟨hb.consistent.effect heffect, hb.known.trans_le heffect.nextId_le, fun s' hs' => ?_, hinv⟩
  cases hs : b.hub.sessions.byId.lookup id with
  | some s =>
      obtain ⟨t, ht, hkept⟩ := htouched.handled id s hs
      exact (halike s t hs ht).trans (hkept s' hs')
  | none =>
      -- a handle that is gone is not given again
      exact absurd hb.known (Nat.not_lt.mpr (htouched.fresh id s' hs hs').1)

theorem Follows.link {l : Link} (hb : b.Follows id I) (hinv : I l)
    (hsession : l.session = b.link.session) :
    ({ b with link := l } : Subscriber).Follows id I :=
  ⟨hb.consistent, hb.known, fun s hs => hsession ▸ hb.alike s hs, hinv⟩

theorem Follows.acknowledge (hstepI : ∀ cfg l st l', I l → Link.step cfg l st = some l' → I l')
    (hb : b.Follows id I) {ack : Option Ack} {st : LinkStep}
    (hstep : b.acknowledge id ack st = some b')
    (hanswer : ∀ l a, ack = some a → b.link.step b.hub.retry st = some l →
      l.session = a.apply b.link.session) : b'.Follows id I := by
  obtain ⟨a, ha, hstep⟩ := Option.bind_eq_some_iff.mp hstep
  obtain ⟨hub, hact, hstep⟩ := Option.bind_eq_some_iff.mp hstep
  obtain ⟨l, hl, rfl⟩ := Option.map_eq_some_iff.mp hstep
  refine hb.act hact (hstepI _ _ _ _ hb.inv hl) fun s t hs ht => ?_
  rw [Section.touches, if_pos rfl] at ht
  obtain ⟨s₁, hs₁, hnil⟩ := Machine.run_cons_eq_some.mp ht
  cases hnil
  obtain ⟨out, hout, rfl⟩ := Option.map_eq_some_iff.mp hs₁
  obtain ⟨t, ht, halike⟩ := (hb.alike s hs).symm.handle hout
  rw [Ack.handle] at ht
  obtain rfl := (Prod.mk.inj (Option.some.inj ht)).1
  rw [hanswer l a ha hl]
  exact halike.symm

/-- The link stays that of the session, and keeps its invariant. -/
theorem Follows.step (hstepI : ∀ cfg l st l', I l → Link.step cfg l st = some l' → I l')
    (hb : b.Follows id I) {st : SubscriberStep}
    (hstep : b.step id st = some b') : b'.Follows id I := by
  cases st with
  | act sec =>
      rw [Subscriber.step] at hstep
      split at hstep
      next hunasked =>
        obtain ⟨hub, hact, rfl⟩ := Option.map_eq_some_iff.mp hstep
        have htouched := Hub.touched_act (hb.consistent.lookup_eq_none (Nat.le_refl _)) hact
        have hfollow : ∀ s, b.hub.sessions.byId.lookup id = some s →
            ∃ t, s.handleAll b.hub.retry (sec.touches b.hub id s) = some t ∧
              Machine.run (Link.step b.hub.retry) b.link (sec.linkSteps b.hub id s) =
                some (b.follow id sec) ∧ (b.follow id sec).session.Alike t := by
          intro s hs
          obtain ⟨t, ht, -⟩ := htouched.handled id s hs
          obtain ⟨l, hl, halike⟩ := Link.exists_run_linkSteps b.hub id (hb.alike s hs) hunasked ht
          have heq : b.follow id sec = l := by rw [follow, hs]; exact congrArg (·.getD b.link) hl
          exact ⟨t, ht, heq ▸ hl, heq ▸ halike⟩
        refine hb.act hact ?_ fun s t hs ht => ?_
        · cases hs : b.hub.sessions.byId.lookup id with
          | none =>
              rw [follow, hs]
              exact hb.inv
          | some s =>
              obtain ⟨t, -, hrun, -⟩ := hfollow s hs
              exact Machine.run_invariant (hstepI b.hub.retry) hb.inv hrun
        · obtain ⟨t', ht', -, halike⟩ := hfollow s hs
          rw [ht] at ht'
          cases ht'
          exact halike
      next => cases hstep
  | read =>
      obtain ⟨l, hl, rfl⟩ := Option.map_eq_some_iff.mp hstep
      refine hb.link (hstepI _ _ _ _ hb.inv hl) ?_
      rw [Link.step] at hl
      split at hl
      · cases hl
      · cases hl; rfl
  | answer =>
      rw [Subscriber.step] at hstep
      split at hstep
      next =>
        refine hb.acknowledge hstepI hstep fun l a ha hl => ?_
        rw [Link.step] at hl
        split at hl
        · cases hl
        next ack rest hreplies =>
          rw [hreplies] at ha
          cases ha
          rw [Link.handle, Ack.handle] at hl
          cases hl
          rfl
      next => cases hstep
  | answerLate k =>
      rw [Subscriber.step] at hstep
      split at hstep
      next =>
        refine hb.acknowledge hstepI hstep fun l a ha hl => ?_
        rw [Link.step] at hl
        split at hl
        · cases hl
        next ack hlate =>
          rw [hlate] at ha
          cases ha
          rw [Link.handle, Ack.handle] at hl
          cases hl
          rfl
      next => cases hstep

theorem follows_start {h : Hub} {s : Session} (hcons : h.Consistent)
    (hs : h.sessions.byId.lookup id = some s) (hinit : I (.start s)) :
    (⟨h, .start s⟩ : Subscriber).Follows id I := by
  refine ⟨hcons, ?_, fun t ht => ?_, hinit⟩
  · by_contra hnot
    have hnone := hcons.lookup_eq_none (Nat.not_lt.mp hnot)
    rw [hs] at hnone
    cases hnone
  · have ht' : h.sessions.byId.lookup id = some t := ht
    rw [hs] at ht'
    cases ht'
    exact .refl s

/-- What every step of the link keeps holds whatever the hub does in between. -/
theorem always_of_link {P : Link → Prop} (I : Link → Prop)
    (hstepI : ∀ cfg l st l', I l → Link.step cfg l st = some l' → I l') (hP : ∀ l, I l → P l)
    {h : Hub} {s : Session} (hcons : h.Consistent) (hs : h.sessions.byId.lookup id = some s)
    (hinit : I (.start s)) (steps : List SubscriberStep) :
    Machine.Always (step id)
      (fun b =>
        (∀ s, b.hub.sessions.byId.lookup id = some s → b.link.session.Alike s) ∧ P b.link)
      ⟨h, .start s⟩ steps :=
  Machine.always_of_invariant (Follows id I) (fun _ _ _ hb hstep => hb.step hstepI hstep)
    (fun _ hb => ⟨hb.alike, hP _ hb.inv⟩) (follows_start hcons hs hinit)

/-- Whatever else the hub does, a client that keeps to the protocol gets the QoS 2 messages
of its session exactly once, as long as identifiers are not used again. -/
theorem qos2_exactly_once (h : Hub) (id : ClientId) (s : Session) (hcons : h.Consistent)
    (hs : h.sessions.byId.lookup id = some s) (hqueue : s.inflight = [])
    (hid : 0 < s.nextId) (hmax : s.nextId ≤ 65535) (steps : List SubscriberStep) :
    Machine.Always (step id)
      (fun b =>
        (∀ s, b.hub.sessions.byId.lookup id = some s → b.link.session.Alike s) ∧
          (b.link.issued ≤ 65535 → b.link.Delivered))
      ⟨h, .start s⟩ steps := by
  refine always_of_link (P := fun l => l.issued ≤ 65535 → l.Delivered) (Link.Fresh (s.nextId - 1))
    (fun _ _ _ _ hl hstep => hl.step hstep) ?_ hcons hs (Link.fresh_start hqueue ?_) steps
  · intro l hl hfew
    obtain ⟨⟨v, hv, hinv⟩, -⟩ := hl hfew
    exact hv.delivered hinv
  · rw [Link.idAt]
    omega

def interrupted : List SubscriberStep :=
  [.act (.deliver [(1, .exactlyOnce)] "t" [7] .exactlyOnce 0), .read, .act (.detach 1 1),
    .act (.connect "c" false 60 1), .read, .answer, .read, .answer]

theorem qos2_exactly_once_interrupted :
    ∃ h s b, (Hub.new none ⟨5, 5, 60⟩ 0 0).act (.connect "c" true 60 0) = some h ∧
      h.sessions.byId.lookup 1 = some s ∧
      Machine.run (step 1) ⟨h, .start s⟩ interrupted = some b ∧
      b.link.client.log = [⟨"t", [7], .exactlyOnce, false⟩] ∧
      Machine.Always (step 1)
        (fun b =>
          (∀ s, b.hub.sessions.byId.lookup 1 = some s → b.link.session.Alike s) ∧
            (b.link.issued ≤ 65535 → b.link.Delivered))
        ⟨h, .start s⟩ interrupted := by
  refine ⟨_, _, _, rfl, rfl, rfl, rfl, ?_⟩
  refine qos2_exactly_once _ 1 _ ?_ rfl rfl (by decide) (by decide) interrupted
  exact (Hub.consistent_new none ⟨5, 5, 60⟩ 0 0).effect
    (Hub.act_effect (a := .connect "c" true 60 0) rfl)

end Subscriber

end Relay
