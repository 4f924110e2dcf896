import Relay.Core.RoundRobin
import Relay.Server.Attachment
import Relay.Server.Broker
import Relay.Server.Fanout

/-! # Work queues with offline workers

The router selects a member of a share group without knowing its session. The copy
of the selected member is lost if that member has no session, or if its session is
offline and the message goes to it at QoS 0, also while other members that match
are online.
-/

namespace Relay

namespace Session

/-- A delivery leaves the message on the channel of an online session, or in the
in-flight queue. -/
def Keeps (topic : String) (payload : Bytes) (s s' : Session) : Prop :=
  (∃ packets p, s.tx = some packets ∧ s'.tx = some (packets ++ [.publish p]) ∧
    p.topic = topic ∧ p.payload = payload) ∨
  ∃ e p, s'.inflight = s.inflight ++ [e] ∧ e.state.undelivered = some p ∧
    p.topic = topic ∧ p.payload = payload

theorem keeps_received_iff (s : Session) (topic : String) (payload : Bytes) (qos : QoS)
    (now : Nat) (cfg : RetryConfig) :
    s.Keeps topic payload (s.received topic payload qos false now cfg) ↔
      s.tx.isSome ∨ qos ≠ .atMostOnce := by
  constructor
  · rintro (⟨packets, p, htx, -⟩ | ⟨e, p, hqueue, -⟩)
    · left
      rw [htx]
      rfl
    · right
      rintro rfl
      simp [received, entriesFor] at hqueue
  · rintro (honline | hqos)
    · obtain ⟨packets, htx⟩ := Option.isSome_iff_exists.mp honline
      refine Or.inl ⟨packets, s.publishFor topic payload qos false, htx, ?_, rfl, rfl⟩
      simp [received, htx]
    · obtain ⟨e, hqueue, hstate, -⟩ := (s.delivered_received topic payload qos now cfg).qos12 hqos
      exact Or.inr ⟨e, _, hqueue, hstate, rfl, rfl⟩

end Session

namespace Hub

section

variable (h : Hub) (topic : String) (payload : Bytes) (msgQos : QoS) (retain : Bool) (clock : Clock)

/-- The hub of a publish when its delivery loop begins. -/
def routed : Hub := ((h.announce topic payload msgQos retain clock.ts).routeTopic topic).2

/-- The delivery loop of a publish keeps the copy for this target: whenever it comes to
the target, the message is left with the target's session. -/
def KeepsCopy (target : ClientId × QoS) : Prop :=
  ∀ before after, (h.router.route topic).1 = before ++ target :: after →
    ∃ f f' s s', (h.routed topic payload msgQos retain clock).deliverAll before topic payload
        msgQos clock.now = some f ∧
      deliverTo topic payload msgQos clock.now f target = some f' ∧
      f.hub.sessions.byId.lookup target.1 = some s ∧
      f'.hub.sessions.byId.lookup target.1 = some s' ∧ s.Keeps topic payload s'

def KeepsGroupCopy (g : SharedGroup) : Prop :=
  ∃ target, g.selected topic = some target ∧ h.KeepsCopy topic payload msgQos retain clock target

end

variable {h : Hub} {topic : String} {payload : Bytes} {msgQos : QoS} {retain : Bool} {clock : Clock}

theorem holder_routed (h : Hub) (topic : String) (payload : Bytes) (msgQos : QoS) (retain : Bool)
    (clock : Clock) :
    (h.routed topic payload msgQos retain clock).sessions.holder = h.sessions.holder := by
  rw [routed, routeTopic, sessions_announce]

/-- A publish leaves every session to whom it belongs. -/
theorem holder_publish {n : Nat} {h' : Hub}
    (hpublish : h.publish topic payload msgQos retain clock = some (n, h')) :
    h'.sessions.holder = h.sessions.holder := by
  rw [publish, fanOut_eq] at hpublish
  obtain ⟨f, hf, heq⟩ := Option.map_eq_some_iff.mp hpublish
  cases heq
  rw [sessions_writeAll, (still_deliverAll hf).holder]
  exact h.holder_routed topic payload msgQos retain clock

theorem holder_deadLetter {h' : Hub} {clientId reason : String} {msg : DeadMsg}
    (hletter : h.deadLetter clientId msg reason clock = some h') :
    h'.sessions.holder = h.sessions.holder := by
  unfold deadLetter at hletter
  split at hletter
  · cases hletter
    rfl
  · obtain ⟨⟨n, h₁⟩, hpublish, rfl⟩ := Option.map_eq_some_iff.mp hletter
    exact (holder_publish hpublish).trans (still_enqueue h _).holder

/-- A delivery to a session that is there. -/
theorem exists_of_deliverTo {now : Nat} {f f' : Fanout} {target : ClientId × QoS} {s : Session}
    (hlookup : f.hub.sessions.byId.lookup target.1 = some s)
    (hdeliver : deliverTo topic payload msgQos now f target = some f') :
    f'.hub.sessions.byId.lookup target.1 =
      some (s.received topic payload (min msgQos target.2) false now f.hub.retry) := by
  unfold deliverTo at hdeliver
  rw [hlookup] at hdeliver
  obtain ⟨s', hs', heq⟩ := Option.bind_eq_some_iff.mp hdeliver
  cases heq
  rw [Session.deliver_eq] at hs'
  split at hs'
  · cases hs'
  · cases hs'
    rw [lookup_setSession hlookup, if_pos rfl]

/-- The loop comes to every target. -/
theorem exists_of_publish {n : Nat} {h' : Hub}
    (hpublish : h.publish topic payload msgQos retain clock = some (n, h'))
    {before after : List (ClientId × QoS)} {target : ClientId × QoS}
    (hroute : (h.router.route topic).1 = before ++ target :: after) :
    ∃ f f', (h.routed topic payload msgQos retain clock).deliverAll before topic payload msgQos
      clock.now = some f ∧ deliverTo topic payload msgQos clock.now f target = some f' := by
  have htargets : ((h.announce topic payload msgQos retain clock.ts).routeTopic topic).1 =
      before ++ target :: after := by
    rw [← hroute, routeTopic, router_announce]
  rw [publish, fanOut_eq, htargets] at hpublish
  obtain ⟨last, hlast, -⟩ := Option.map_eq_some_iff.mp hpublish
  rw [deliverAll, List.foldlM_append] at hlast
  obtain ⟨f, hf, hrest⟩ := Option.bind_eq_some_iff.mp hlast
  rw [List.foldlM_cons] at hrest
  obtain ⟨f', hf', -⟩ := Option.bind_eq_some_iff.mp hrest
  exact ⟨f, f', hf, hf'⟩

/-- Up to the delivery of a copy nothing changes in whether its session is there and
online. -/
theorem online_deliverAll {before : List (ClientId × QoS)} {f : Fanout}
    (hf : (h.routed topic payload msgQos retain clock).deliverAll before topic payload msgQos
      clock.now = some f) (id : ClientId) :
    (f.hub.sessions.byId.lookup id).map (fun s => s.tx.isSome) =
      (h.sessions.byId.lookup id).map fun s => s.tx.isSome := by
  have hholder := congrFun ((still_deliverAll hf).holder.trans (holder_routed ..)) id
  have honline := congrArg (Option.map Holder.online) hholder
  rwa [SessionTable.holder, SessionTable.holder, Option.map_map, Option.map_map] at honline

/-- The copy of a target is kept exactly if the target has a session that is online, or
the message goes to it at QoS 1 or 2. -/
theorem keepsCopy_iff {n : Nat} {h' : Hub}
    (hpublish : h.publish topic payload msgQos retain clock = some (n, h'))
    {target : ClientId × QoS} (hmem : target ∈ (h.router.route topic).1) :
    h.KeepsCopy topic payload msgQos retain clock target ↔
      ∃ s, h.sessions.byId.lookup target.1 = some s ∧
        (s.tx.isSome ∨ min msgQos target.2 ≠ .atMostOnce) := by
  constructor
  · intro hkeeps
    obtain ⟨before, after, hroute⟩ := List.append_of_mem hmem
    obtain ⟨f, f', s, s', hf, hdeliver, hs, hs', hkept⟩ := hkeeps before after hroute
    rw [exists_of_deliverTo hs hdeliver] at hs'
    cases hs'
    have honline := online_deliverAll hf target.1
    rw [hs, Option.map_some] at honline
    obtain ⟨s₀, hs₀, heq⟩ := Option.map_eq_some_iff.mp honline.symm
    exact ⟨s₀, hs₀, heq ▸ (Session.keeps_received_iff ..).mp hkept⟩
  · rintro ⟨s₀, hs₀, hcopy⟩ before after hroute
    obtain ⟨f, f', hf, hdeliver⟩ := exists_of_publish hpublish hroute
    have honline := online_deliverAll hf target.1
    rw [hs₀, Option.map_some] at honline
    obtain ⟨s, hs, heq⟩ := Option.map_eq_some_iff.mp honline
    refine ⟨f, f', s, _, hf, hdeliver, hs, exists_of_deliverTo hs hdeliver, ?_⟩
    exact (Session.keeps_received_iff ..).mpr (heq ▸ hcopy)

theorem min_ne_atMostOnce_iff (q q' : QoS) :
    min q q' ≠ .atMostOnce ↔ q ≠ .atMostOnce ∧ q' ≠ .atMostOnce := by
  cases q <;> cases q' <;> decide

/-- The copy of a share group is kept exactly if the member whose turn it is has a
session that is online, or else is granted QoS 1 or 2 and the message is published at
QoS 1 or 2. Other members that are online do not matter. -/
theorem keepsGroupCopy_iff (h : Hub) (topic : String) (payload : Bytes) (msgQos : QoS)
    (retain : Bool) (clock : Clock) (n : Nat) (h' : Hub)
    (hpublish : h.publish topic payload msgQos retain clock = some (n, h')) (group : String)
    (g : SharedGroup) (hg : h.router.shared.lookup group = some g) :
    h.KeepsGroupCopy topic payload msgQos retain clock g ↔
      ∃ m s, (g.matchingMembers topic)[g.cursor % (g.matchingMembers topic).length]? = some m ∧
        h.sessions.byId.lookup m.1 = some s ∧
        (s.tx.isSome ∨ msgQos ≠ .atMostOnce ∧ m.2.qos ≠ .atMostOnce) := by
  constructor
  · rintro ⟨target, hselected, hkeeps⟩
    rw [SharedGroup.selected_eq_pick] at hselected
    obtain ⟨m, hpick, rfl⟩ := Option.map_eq_some_iff.mp hselected
    obtain ⟨s, hs, hcopy⟩ := (keepsCopy_iff hpublish (Router.mem_route_of_pick hg hpick)).mp hkeeps
    rw [min_ne_atMostOnce_iff] at hcopy
    exact ⟨m, s, hpick, hs, hcopy⟩
  · rintro ⟨m, s, hpick, hs, hcopy⟩
    rw [← min_ne_atMostOnce_iff] at hcopy
    refine ⟨(m.1, m.2.qos), ?_, ?_⟩
    · rw [SharedGroup.selected_eq_pick, SharedGroup.pick, Rotation.at?, hpick, Option.map_some]
    · exact (keepsCopy_iff hpublish (Router.mem_route_of_pick hg hpick)).mpr ⟨s, hs, hcopy⟩

/-- Two workers for "t" at QoS 1. The first one is gone for now, its session lasts for a
minute; the second one is online. -/
def oneWorkerAway : Option Broker :=
  Machine.run Broker.step (Broker.new none ⟨5, 5, 60⟩ 0 100 0)
    [.accept 0 "p", .accept 1 "q",
      .connect 0 ⟨"a", true, 60, none⟩ (some ⟨["#"], ["#"]⟩) 0,
      .connect 1 ⟨"b", true, 60, none⟩ (some ⟨["#"], ["#"]⟩) 0,
      .subscribe 0 "$share/g/t" .atLeastOnce, .subscribe 1 "$share/g/t" .atLeastOnce, .close 0]

def twoWorkers : SharedGroup :=
  ⟨[(1, ⟨⟨"t", by decide⟩, .atLeastOnce⟩), (2, ⟨⟨"t", by decide⟩, .atLeastOnce⟩)], 0⟩

theorem exists_oneWorkerAway : ∃ b, oneWorkerAway = some b ∧
    b.hub.router.shared.lookup "g" = some twoWorkers ∧
    b.hub.sessions.byId.lookup 1 = some (Session.new "a" none 60 1) ∧
    b.hub.sessions.byId.lookup 2 = some (Session.new "b" (some []) 60 2) ∧
    ∀ qos, (b.hub.publish "t" [7] qos false ⟨0, 0⟩).isSome := by
  obtain ⟨b, hb⟩ := Option.isSome_iff_exists.mp (show oneWorkerAway.isSome by decide +kernel)
  have hfacts : ∀ b ∈ oneWorkerAway, b.hub.router.shared.lookup "g" = some twoWorkers ∧
      b.hub.sessions.byId.lookup 1 = some (Session.new "a" none 60 1) ∧
      b.hub.sessions.byId.lookup 2 = some (Session.new "b" (some []) 60 2) ∧
      ∀ qos ∈ [QoS.atMostOnce, .atLeastOnce, .exactlyOnce],
        (b.hub.publish "t" [7] qos false ⟨0, 0⟩).isSome := by
    decide +kernel
  obtain ⟨hg, hfirst, hsecond, hpublish⟩ := hfacts b hb
  exact ⟨b, hb, hg, hfirst, hsecond, fun qos => hpublish qos (by cases qos <;> decide)⟩

/-- The worker that is away has its turn: at QoS 1 the message waits for it. -/
theorem oneWorkerAway_keeps_qos1 : ∃ b, oneWorkerAway = some b ∧
    b.hub.KeepsGroupCopy "t" [7] .atLeastOnce false ⟨0, 0⟩ twoWorkers := by
  obtain ⟨b, hb, hg, hfirst, -, hpublish⟩ := exists_oneWorkerAway
  obtain ⟨⟨n, h'⟩, hsome⟩ := Option.isSome_iff_exists.mp (hpublish .atLeastOnce)
  refine ⟨b, hb, (keepsGroupCopy_iff b.hub "t" [7] .atLeastOnce false ⟨0, 0⟩ n h' hsome "g"
    twoWorkers hg).mpr ⟨(1, ⟨⟨"t", by decide⟩, .atLeastOnce⟩), _, by decide, hfirst, ?_⟩⟩
  exact Or.inr ⟨by decide, by decide⟩

/-- At QoS 0 the message is lost, with the second worker online. -/
theorem oneWorkerAway_loses_qos0 : ∃ b, oneWorkerAway = some b ∧
    b.hub.router.shared.lookup "g" = some twoWorkers ∧
    (∃ m ∈ twoWorkers.matchingMembers "t", ∃ s, b.hub.sessions.byId.lookup m.1 = some s ∧
      s.tx.isSome) ∧
    (b.hub.publish "t" [7] .atMostOnce false ⟨0, 0⟩).isSome ∧
    ¬ b.hub.KeepsGroupCopy "t" [7] .atMostOnce false ⟨0, 0⟩ twoWorkers := by
  obtain ⟨b, hb, hg, hfirst, hsecond, hpublish⟩ := exists_oneWorkerAway
  refine ⟨b, hb, hg, ⟨(2, ⟨⟨"t", by decide⟩, .atLeastOnce⟩), by decide, _, hsecond, rfl⟩,
    hpublish _, ?_⟩
  rintro ⟨target, hselected, hkeeps⟩
  obtain ⟨⟨n, h'⟩, hsome⟩ := Option.isSome_iff_exists.mp (hpublish .atMostOnce)
  have htarget : target = (1, .atLeastOnce) :=
    (Option.some.inj (show some (1, QoS.atLeastOnce) = some target from hselected)).symm
  have hpick : twoWorkers.pick "t" = some (1, ⟨⟨"t", by decide⟩, .atLeastOnce⟩) := by decide
  subst htarget
  obtain ⟨s, hs, hcopy⟩ := (keepsCopy_iff hsome (Router.mem_route_of_pick hg hpick)).mp hkeeps
  rw [hfirst] at hs
  cases hs
  revert hcopy
  decide

end Hub

end Relay
