import Relay.Foundation.Machine
import Relay.Server.Hub

/-! # Atomic sections of the hub

The lock scopes of the hub's operations as the actions of a machine. Concurrent
operations interleave exactly at section boundaries, so a list of sections is an
interleaving; arguments that an operation computed in an earlier section are
parameters of the later one. Every operation of the hub is a run of sections.
-/

namespace Relay

/-- Acknowledgements of outbound messages. -/
inductive Ack where
  | puback (pid : Nat)
  | pubrec (pid : Nat)
  | pubcomp (pid : Nat)

def Ack.apply (s : Session) : Ack → Session
  | puback pid => s.onPuback pid
  | pubrec pid => s.onPubrec pid
  | pubcomp pid => s.onPubcomp pid

/-- An acknowledgement changes the queue and may be answered, nothing else. -/
theorem Ack.exists_apply (s : Session) (ack : Ack) :
    ∃ queue packets,
      ack.apply s = { s with inflight := queue, tx := s.tx.map (· ++ packets) } := by
  cases ack with
  | puback pid => exact ⟨(s.onPuback pid).inflight, [], by simp [apply, Session.onPuback]⟩
  | pubrec pid => exact s.exists_onPubrec pid
  | pubcomp pid => exact ⟨(s.onPubcomp pid).inflight, [], by simp [apply, Session.onPubcomp]⟩

/-- One lock scope, queued write or worker round. -/
inductive Section where
  | connect (clientId : String) (cleanStart : Bool) (expirySecs now : Nat)
  | detach (id : ClientId) (generation : Nat)
  | expire (id : ClientId) (generation : Nat)
  | subscribe (id : ClientId) (filter : TopicFilter) (qos : QoS)
  | subscribeShared (group : String) (id : ClientId) (filter : TopicFilter) (qos : QoS)
  | unroute (id : ClientId) (raw : String)
  | route (topic : String)
  | retain (message : Message)
  | deliver (targets : List (ClientId × QoS)) (topic : String) (payload : Bytes) (msgQos : QoS)
      (now : Nat)
  | replayRetained (id : ClientId) (messages : List Message) (granted : QoS) (now : Nat)
  | tick (now : Nat)
  | acknowledge (id : ClientId) (ack : Ack)
  | qos2Seen (id : ClientId) (pid : Nat)
  | qos2Release (id : ClientId) (pid : Nat)
  | send (id : ClientId) (packets : List Packet)
  | enqueue (op : PersistOp)
  | work

namespace Hub

/-- The locked part of a replay: send packets already read from the log. -/
def sendAll (h : Hub) (id : ClientId) (packets : List Packet) : Hub :=
  match h.sessions.byId.lookup id with
  | none => h
  | some s => h.setSession id (packets.foldl Session.send s)

def act (h : Hub) : Section → Option Hub
  | .connect clientId cleanStart expirySecs now =>
      (h.connect clientId cleanStart expirySecs now).map Prod.snd
  | .detach id generation => some (h.detach id generation)
  | .expire id generation => some (h.expire id generation).2
  | .subscribe id filter qos => some { h with router := h.router.subscribe id filter qos }
  | .subscribeShared group id filter qos =>
      some { h with router := h.router.subscribeShared group id filter qos }
  | .unroute id raw => some (h.unroute id raw).2
  | .route topic => some (h.routeTopic topic).2
  | .retain message => some { h with retained := h.retained.apply message }
  | .deliver targets topic payload msgQos now =>
      (h.deliverAll targets topic payload msgQos now).map Fanout.hub
  | .replayRetained id messages granted now =>
      (h.replayRetained id messages granted now).map Prod.snd
  | .tick now => some (h.tickAll now).2.2
  | .acknowledge id ack => some (h.acknowledge id ack.apply).2
  | .qos2Seen id pid => some (h.inboundQos2Seen id pid).2
  | .qos2Release id pid => some (h.inboundQos2Release id pid)
  | .send id packets => some (h.sendAll id packets)
  | .enqueue op => some (h.enqueue op)
  | .work => h.work

theorem exists_of_work {h h' : Hub} (hwork : h.work = some h') :
    ∃ d d', h.disk = some d ∧ d.work = some d' ∧ h' = { h with disk := some d' } := by
  obtain ⟨d, hd, hrest⟩ := Option.bind_eq_some_iff.mp hwork
  obtain ⟨d', hd', heq⟩ := Option.bind_eq_some_iff.mp hrest
  exact ⟨d, d', hd, hd', (Option.some.inj heq).symm⟩

/-! ## Operations are runs of sections -/

abbrev Reaches (h h' : Hub) : Prop := Machine.Reaches act h h'

theorem reaches_enqueue (h : Hub) (op : PersistOp) : h.Reaches (h.enqueue op) :=
  .single (.enqueue op) rfl

theorem reaches_writeAll (h : Hub) (snapshots : List (String × Bytes)) :
    h.Reaches (h.writeAll snapshots) := by
  induction snapshots generalizing h with
  | nil => exact .refl h
  | cons snapshot rest ih => exact (reaches_enqueue h _).trans (ih (h.writeInflight snapshot))

theorem reaches_journal (h : Hub) (topic : String) (payload : Bytes) (qos : QoS) (ts : Nat) :
    h.Reaches (h.journal topic payload qos ts) := by
  unfold journal
  split
  · exact reaches_enqueue h _
  · exact .refl h

theorem reaches_announce (h : Hub) (topic : String) (payload : Bytes) (qos : QoS) (retain : Bool)
    (ts : Nat) : h.Reaches (h.announce topic payload qos retain ts) := by
  unfold announce
  refine Machine.Reaches.trans ?_ (reaches_journal _ topic payload qos ts)
  split
  · exact (Machine.Reaches.single (.retain ⟨topic, payload, qos, true⟩) rfl).trans
      (reaches_enqueue _ _)
  · exact .refl h

theorem reaches_fanOut {h h' : Hub} {topic : String} {payload : Bytes} {msgQos : QoS}
    {now n : Nat} (hfan : h.fanOut topic payload msgQos now = some (n, h')) : h.Reaches h' := by
  refine (Machine.Reaches.single (.route topic) rfl).trans ?_
  simp only [fanOut] at hfan
  split at hfan
  · cases hfan
    exact .refl _
  · obtain ⟨f, hf, heq⟩ := Option.map_eq_some_iff.mp hfan
    cases heq
    refine Machine.Reaches.trans (.single
      (.deliver (h.routeTopic topic).1 topic payload msgQos now) ?_) (reaches_writeAll f.hub _)
    simp only [act, hf, Option.map_some]

/-- A publish is a sequence of sections, with room for others in between. -/
theorem reaches_publish {h h' : Hub} {topic : String} {payload : Bytes} {msgQos : QoS}
    {retain : Bool} {clock : Clock} {n : Nat}
    (hpublish : h.publish topic payload msgQos retain clock = some (n, h')) : h.Reaches h' :=
  (reaches_announce h topic payload msgQos retain clock.ts).trans (reaches_fanOut hpublish)

theorem reaches_deadLetter {h h' : Hub} {clientId reason : String} {msg : DeadMsg} {clock : Clock}
    (hdead : h.deadLetter clientId msg reason clock = some h') : h.Reaches h' := by
  unfold deadLetter at hdead
  split at hdead
  · cases hdead
    exact .refl h
  · obtain ⟨⟨n, h''⟩, hpublish, rfl⟩ := Option.map_eq_some_iff.mp hdead
    exact (reaches_enqueue h _).trans (reaches_publish hpublish)

theorem reaches_deadLetterAll {h h' : Hub} {reason : String} {dead : List (String × DeadMsg)}
    {clock : Nat → Clock} (hdead : h.deadLetterAll reason dead clock = some h') :
    h.Reaches h' := by
  induction dead generalizing h clock with
  | nil =>
      cases hdead
      exact .refl _
  | cons msg rest ih =>
      obtain ⟨h'', hfirst, hrest⟩ := Option.bind_eq_some_iff.mp hdead
      exact (reaches_deadLetter hfirst).trans (ih hrest)

theorem reaches_purgeIfIdle {h h' : Hub} {id : ClientId} {generation : Nat} {clock : Nat → Clock}
    (hpurge : h.purgeIfIdle id generation clock = some h') : h.Reaches h' :=
  (Machine.Reaches.single (.expire id generation) rfl).trans (reaches_deadLetterAll hpurge)

/-- A round of the retry timer is its tick and the dead letters after it. -/
theorem reaches_runRetries {h h' : Hub} {clock : Nat → Clock}
    (hretries : h.runRetries clock = some h') : h.Reaches h' :=
  (Machine.Reaches.single (.tick (clock 0).now) rfl).trans
    ((reaches_writeAll _ _).trans (reaches_deadLetterAll hretries))

theorem reaches_persistSubscription (h : Hub) (id : ClientId) (raw : String) (qos : QoS) :
    h.Reaches (h.persistSubscription id raw qos) := by
  unfold persistSubscription
  split
  · exact reaches_enqueue h _
  · exact .refl h

theorem reaches_subscribe (h : Hub) (id : ClientId) (filter : TopicFilter) (qos : QoS)
    (raw : String) : h.Reaches (h.subscribe id filter qos raw) :=
  (Machine.Reaches.single (.subscribe id filter qos) rfl).trans
    (reaches_persistSubscription _ id raw qos)

theorem reaches_subscribeShared (h : Hub) (group : String) (id : ClientId) (filter : TopicFilter)
    (qos : QoS) (raw : String) : h.Reaches (h.subscribeShared group id filter qos raw) :=
  (Machine.Reaches.single (.subscribeShared group id filter qos) rfl).trans
    (reaches_persistSubscription _ id raw qos)

/-- The row is forgotten in a section of its own. -/
theorem reaches_unsubscribe (h : Hub) (id : ClientId) (raw : String) :
    h.Reaches (h.unsubscribe id raw).2 := by
  refine (Machine.Reaches.single (.unroute id raw) rfl).trans ?_
  simp only [unsubscribe, forgetSubscription]
  split
  · exact reaches_enqueue _ _
  · exact .refl _

theorem reaches_deliverRetained {h h' : Hub} {id : ClientId} {filter : TopicFilter} {granted : QoS}
    {now : Nat} (hdeliver : h.deliverRetained id filter granted now = some h') : h.Reaches h' := by
  simp only [deliverRetained] at hdeliver
  split at hdeliver
  · cases hdeliver
    exact .refl h
  · obtain ⟨⟨snapshot, h''⟩, hlocked, rfl⟩ := Option.map_eq_some_iff.mp hdeliver
    refine Machine.Reaches.trans (.single
      (.replayRetained id (h.retained.matching filter) granted now) ?_)
      (reaches_writeAll h'' snapshot.toList)
    simp only [act, hlocked, Option.map_some]

/-- Reading the log changes nothing; only what is sent does. -/
theorem reaches_replay (h : Hub) (id : ClientId) (start : Nat) (filter : TopicFilter) :
    h.Reaches (h.replay id start filter).2 := by
  unfold replay
  cases hdisk : h.disk with
  | none => exact .refl h
  | some d =>
      cases hsession : h.sessions.byId.lookup id with
      | none => exact .refl h
      | some s =>
          refine .single (.send id ((d.storage.loadEvents start).filterMap
            (replayPacket filter))) ?_
          simp only [act, sendAll, hsession]

theorem reaches_onAck (h : Hub) (id : ClientId) (ack : Ack) :
    h.Reaches (h.onAck id ack.apply) :=
  (Machine.Reaches.single (.acknowledge id ack) rfl).trans (reaches_writeAll _ _)

end Hub

end Relay
