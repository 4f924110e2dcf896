import Relay.Server.Lineage

/-! # Length fields of the in-flight blob

The topic of a message is stored behind a length of two bytes. What comes over the wire
fits, but a dead letter has a longer topic than its message: the client identifier is put
in front of it. As long as the dead letters fit, no length is cut off in any state and
every queue is read back as it was written. A client with a long identifier makes one
that does not.
-/

namespace Relay

/-- The topic of the dead letter can be as long as a length field can say. -/
def LeavesRoom (client topic : String) : Prop :=
  (Wire.utf8 client).length + (Wire.utf8 topic).length ≤ 65529

instance (client topic : String) : Decidable (LeavesRoom client topic) :=
  inferInstanceAs (Decidable (_ ≤ _))

theorem length_dlqTopic (client topic : String) :
    (Wire.utf8 (Hub.dlqTopic client topic)).length =
      (Wire.utf8 client).length + (Wire.utf8 topic).length + 6 := by
  have hroot : (Wire.utf8 "$dlq/").length = 5 := by decide +kernel
  have hslash : (Wire.utf8 "/").length = 1 := by decide +kernel
  simp only [Hub.dlqTopic, Wire.length_utf8_append, hroot, hslash]
  omega

/-- Lengths that fit, and the room that dead letters need. -/
theorem lineage_wireFits : Lineage WireFits LeavesRoom where
  fits _ _ hfits := hfits
  dead client topic payload hfits _ hroom := by
    refine ⟨?_, hfits.2⟩
    rw [length_dlqTopic, u16Bound]
    rw [LeavesRoom] at hroom
    omega

/-- No length of the queue is cut off, and its blob is read as the queue. -/
structure Session.Uncut (s : Session) : Prop where
  topics : ∀ e ∈ s.inflight, ∀ p ∈ e.state.undelivered, (Wire.utf8 p.topic).length ≤ 65535
  decodes : ∀ now cfg, ∃ queue, decodeInflight s.encodeInflight now cfg = some (s.nextId, queue) ∧
    queue.map (fun e => (e.state, e.attempts)) = s.inflight.map fun e => (e.state, e.attempts)

/-- Contents that fit leave nothing to cut off. -/
theorem Session.Carries.uncut {s : Session} (hs : s.Carries WireFits) : s.Uncut where
  topics e he p hp := Nat.le_of_lt_succ (hs.queue e he p hp).1
  decodes now cfg := by
    have hdecode := decodeInflight_encodeInflight hs.writable.lt hs.writable.queued
      (fits_of_awaiting (fun _ _ hfits => hfits) hs.queue) now cfg
    refine ⟨_, hdecode, ?_⟩
    rw [List.map_map]
    rfl

namespace System

/-- The dead letters of the messages that a step takes out have room for their topics. -/
def DeadLettersFit (s : System) (a : SystemStep) : Prop :=
  ∀ entry ∈ s.taken a, isDlqTopic entry.2.publish.topic = false →
    LeavesRoom entry.1 entry.2.publish.topic

instance (s : System) (a : SystemStep) : Decidable (s.DeadLettersFit a) :=
  inferInstanceAs (Decidable (∀ entry ∈ s.taken a, isDlqTopic entry.2.publish.topic = false →
    LeavesRoom entry.1 entry.2.publish.topic))

/-- While the dead letters fit, no length field is cut off: in every state of a run of
the broker, whatever the clients send, the topics in all queues are at most 65535 bytes
long and the blob of every session is read as its queue. -/
theorem uncut_of_deadLettersFit (cfg : HandlerConfig) (durable : Bool) (retry : RetryConfig)
    (eventLogMax now : Nat) (steps : List SystemStep)
    (hfit : Machine.Meets (step cfg) DeadLettersFit (start durable retry eventLogMax now) steps) :
    Machine.Always (step cfg) (fun s => s.hub.Each Session.Uncut)
      (start durable retry eventLogMax now) steps := by
  refine Machine.always_of_meets (Carries WireFits) DeadLettersFit (fun s a s' hs hok hstep => ?_)
    (fun s hs id session hsession => (hs.hub.sessions id session hsession).uncut)
    (carries_start durable retry eventLogMax now) hfit
  exact hs.step lineage_wireFits ⟨fun o ho => fits_of_mem_brings hstep ho, hok⟩ hstep

def openConfig : HandlerConfig := ⟨fun _ => some ⟨["#"], ["#", "$dlq/#"]⟩, 100⟩

/-- The clocks show this time, and the socket takes what is written. -/
def reading (now : Nat) : Reading := ⟨⟨now, 0⟩, 0, true⟩

def acts (k now count : Nat) : List SystemStep := List.replicate count (.own k (reading now))

def sample : Publish := ⟨false, false, .atLeastOnce, "t", some 7, [1], .default⟩

def joins : List SystemStep :=
  [.accept 1 "p", .receive 1 (.packet (.connect ⟨"c", true, 60, none⟩ none))] ++ acts 1 0 3

/-- A message that is never acknowledged is dead-lettered to its own subscriber. -/
theorem uncut_of_deadLettersFit_short :
    let steps : List SystemStep :=
      joins ++
        [.receive 1 (.packet (.subscribe 1 [("#", .atLeastOnce), ("$dlq/#", .atLeastOnce)]))] ++
        acts 1 0 9 ++ [.receive 1 (.packet (.publish sample))] ++ acts 1 0 6 ++
        [.fire 2 .retry] ++ acts 2 5 9
    (∃ s ∈ Machine.run (step openConfig) (start true ⟨1, 1, 1⟩ 0 0) steps,
      ∃ session ∈ s.hub.sessions.byId.lookup 1, ∃ e ∈ session.inflight,
        ∃ p ∈ e.state.undelivered, p.topic = "$dlq/c/t") ∧
      Machine.Always (step openConfig) (fun s => s.hub.Each Session.Uncut)
        (start true ⟨1, 1, 1⟩ 0 0) steps :=
  ⟨by decide +kernel, uncut_of_deadLettersFit openConfig true ⟨1, 1, 1⟩ 0 0 _ (by decide +kernel)⟩

/-! ## A client with a long identifier -/

/-- A hub whose only session has the handle 1. -/
def soloHub (router : Router) (idOf : AssocMap String ClientId) (s : Session)
    (disk : Option Disk) : Hub :=
  { nextId := 2, router, retained := .new, sessions := ⟨AList.insert 1 s ∅, idOf, 1⟩, disk
    retry := ⟨1, 1, 1⟩, eventLogMax := 0, timers := [] }

abbrev soloSession (client : String) : Session := Session.new client (some []) 60 1

def soloConn (filters : Finset String) : Conn :=
  ⟨"p", some 1, 1, ⟨["#"], ["#", "$dlq/#"]⟩, none, filters⟩

abbrev turn (conn : Conn) (input : Input) (h : Hub) : Option ((Flow × Conn) × Hub) :=
  (conn.onInput openConfig input).exec (fun h c => h.perform (reading 0) c) h

section Solo

variable (router : Router) (idOf : AssocMap String ClientId) (s : Session) (disk : Option Disk)

theorem soloHub_writeAll (snapshots : List (String × Bytes)) :
    ∃ disk', (soloHub router idOf s disk).writeAll snapshots = soloHub router idOf s disk' := by
  induction snapshots generalizing disk with
  | nil => exact ⟨disk, rfl⟩
  | cons snapshot rest ih => exact ih _

theorem soloHub_subscribe (filter : TopicFilter) (qos : QoS) (raw : String) :
    ∃ disk', (soloHub router idOf s disk).subscribe 1 filter qos raw =
      soloHub (router.subscribe 1 filter qos) idOf s disk' := by
  simp only [Hub.subscribe, Hub.persistSubscription]
  split <;> exact ⟨_, rfl⟩

variable {router s}

/-- A publish that is routed to the session at QoS 1. -/
theorem soloHub_publish {topic : String} (payload : Bytes) (clock : Clock) (hid : s.nextId ≠ 0)
    (hroute : router.route topic = ([(1, .atLeastOnce)], router)) :
    ∃ disk', (soloHub router idOf s disk).publish topic payload .atLeastOnce false clock =
      some (1, soloHub router idOf
        (s.received topic payload .atLeastOnce false clock.now ⟨1, 1, 1⟩) disk') := by
  have hrouted : (soloHub router idOf s disk).routeTopic topic =
      ([(1, .atLeastOnce)], soloHub router idOf s disk) := by
    simp only [Hub.routeTopic, soloHub, hroute]
  have hdeliver : s.deliver topic payload .atLeastOnce false clock.now ⟨1, 1, 1⟩ =
      some (s.received topic payload .atLeastOnce false clock.now ⟨1, 1, 1⟩) := by
    rw [Session.deliver_eq, if_neg (fun hzero => hid hzero.2)]
  have hall : ∃ snapshots, (soloHub router idOf s disk).deliverAll [(1, .atLeastOnce)] topic payload
      .atLeastOnce clock.now = some ⟨1, snapshots, soloHub router idOf
        (s.received topic payload .atLeastOnce false clock.now ⟨1, 1, 1⟩) disk⟩ :=
    ⟨_, congrArg (Option.bind · _) (congrArg (Option.bind · _) hdeliver)⟩
  obtain ⟨snapshots, hall⟩ := hall
  obtain ⟨disk', hwritten⟩ := soloHub_writeAll router idOf _ disk snapshots
  refine ⟨disk', ?_⟩
  have hfan : (soloHub router idOf s disk).publish topic payload .atLeastOnce false clock =
      (soloHub router idOf s disk).fanOut topic payload .atLeastOnce clock.now := rfl
  rw [hfan, Hub.fanOut, hrouted]
  simp only [hall, Option.map_some]
  exact congrArg (fun h => some (1, h)) hwritten

/-- A dead letter of the only client comes back to it as a message. -/
theorem soloHub_deadLetter {p : Publish} (hdlq : isDlqTopic p.topic = false)
    (hqos : p.qos = .atLeastOnce) (hid : s.nextId ≠ 0)
    (hroute : router.route (Hub.dlqTopic s.clientId p.topic) = ([(1, .atLeastOnce)], router))
    (attempts : Nat) (reason : String) (clock : Clock) :
    ∃ disk', (soloHub router idOf s disk).deadLetter s.clientId ⟨p, attempts⟩ reason clock =
      some (soloHub router idOf (s.received (Hub.dlqTopic s.clientId p.topic) p.payload .atLeastOnce
        false clock.now ⟨1, 1, 1⟩) disk') := by
  unfold Hub.deadLetter
  rw [if_neg (Bool.eq_false_iff.mp hdlq), hqos]
  obtain ⟨disk', hpublish⟩ := soloHub_publish idOf _ p.payload clock hid hroute
  exact ⟨disk', congrArg (Option.map Prod.snd) hpublish⟩

/-- A message that is out of attempts is dead-lettered to the session itself. -/
theorem soloHub_runRetries {p : Publish} {packets : List Packet}
    (hqueue : s.inflight = [⟨.qos1 p, 1, 1⟩]) (honline : s.tx = some packets)
    (hdlq : isDlqTopic p.topic = false) (hqos : p.qos = .atLeastOnce) (hid : s.nextId ≠ 0)
    (hroute : router.route (Hub.dlqTopic s.clientId p.topic) = ([(1, .atLeastOnce)], router)) :
    ∃ disk', (soloHub router idOf s disk).runRetries (fun _ => ⟨5, 0⟩) =
      some (soloHub router idOf ({ s with inflight := [] }.received
        (Hub.dlqTopic s.clientId p.topic) p.payload .atLeastOnce false 5 ⟨1, 1, 1⟩) disk') := by
  let h := soloHub router idOf s disk
  have hvisit : h.tickSession 5 s = ({ s with inflight := [] }, [⟨p, 1⟩], true) := by
    rw [Hub.tickSession, if_neg (by simp [honline])]
    simp [h, soloHub, Session.tickRetries, hqueue, TickState.loop, InflightEntry.deadNow,
      Inflight.undelivered, hdlq]
  have hdead : (h.tickAll 5).1 = [(s.clientId, ⟨p, 1⟩)] := by
    have hvalues : h.sessions.byId.values = [s] := rfl
    simp only [Hub.tickAll, hvalues, List.map_cons, List.map_nil, hvisit, List.flatMap_cons,
      List.flatMap_nil, List.append_nil]
  have hticked : (h.tickAll 5).2.2 = soloHub router idOf { s with inflight := [] } disk := by
    have hsolo : (h.tickAll 5).2.2 = soloHub router idOf (h.tickSession 5 s).1 disk := rfl
    rw [hsolo, hvisit]
  obtain ⟨disk₁, hwritten⟩ :=
    soloHub_writeAll router idOf { s with inflight := [] } disk (h.tickAll 5).2.1
  obtain ⟨disk', hletter⟩ := soloHub_deadLetter (s := { s with inflight := [] }) idOf disk₁
    hdlq hqos hid hroute 1 "max_delivery_attempts_exceeded" ⟨5, 0⟩
  refine ⟨disk', ?_⟩
  rw [Hub.runRetries]
  simp only [show (soloHub router idOf s disk).tickAll 5 = h.tickAll 5 from rfl, hdead, hticked,
    hwritten]
  exact congrArg (Option.bind · _) hletter

end Solo

/-! ### The inputs -/

/-- The client connects. -/
theorem turn_connect {client : String} (hclient : client ≠ "") :
    ∃ idOf disk, turn (Conn.start "p") (.packet (.connect ⟨client, true, 60, none⟩ none))
      (start true ⟨1, 1, 1⟩ 0 0).hub =
        some ((.next, soloConn ∅), soloHub .new idOf (soloSession client) disk) := by
  let packet : ConnectPacket := ⟨client, true, 60, none⟩
  have hsession : packet.session "p" = (client, true) := by
    simp [packet, ConnectPacket.session, hclient]
  let h := (start true ⟨1, 1, 1⟩ 0 0).hub
  have hturn : turn (Conn.start "p") (.packet (.connect packet none)) h =
      (h.connect (packet.session "p").1 (packet.session "p").2 60 0).bind fun out =>
        some ((.next, { soloConn ∅ with
          sessionId := some out.1.id, generation := out.1.generation }), out.2) := rfl
  rw [hturn, hsession]
  exact ⟨_, _, rfl⟩

theorem turn_subscribe (router : Router) (idOf : AssocMap String ClientId) (s : Session)
    (disk : Option Disk) {filters : Finset String} {raw : String} (filter : TopicFilter)
    (hadmits : (soloConn filters).admits 100 raw = none)
    (hshared : SharedSubscription.parse raw = none) (hparse : TopicFilter.parse raw = some filter) :
    ∃ disk', turn (soloConn filters) (.packet (.subscribe 1 [(raw, .atLeastOnce)]))
      (soloHub router idOf s disk) = some ((.next, soloConn (insert raw filters)),
        soloHub (router.subscribe 1 filter .atLeastOnce) idOf s disk') := by
  obtain ⟨disk', hsubscribe⟩ := soloHub_subscribe router idOf s disk filter .atLeastOnce raw
  let conn := soloConn (insert raw filters)
  have hfilter : (soloConn filters).onFilter openConfig 1 raw .atLeastOnce = (do
      call (.subscribe 1 filter .atLeastOnce raw)
      pure (.granted .atLeastOnce, some (filter, .atLeastOnce), conn)) := by
    unfold Conn.onFilter
    simp only [openConfig, hadmits, hshared, hparse]
    rfl
  refine ⟨disk', ?_⟩
  let h := (soloHub router idOf s disk).subscribe 1 filter .atLeastOnce raw
  have hturn : turn (soloConn filters) (.packet (.subscribe 1 [(raw, .atLeastOnce)]))
      (soloHub router idOf s disk) =
        ((h.deliverRetained 1 filter .atLeastOnce 0).map fun h => ((), h)).bind fun out =>
          some ((.next, conn), out.2) := by
    simp only [turn, Conn.onInput, Conn.onPacket, Conn.onSubscribe, soloConn, Conn.onFilters]
      at hfilter ⊢
    rw [hfilter]
    rfl
  rw [hturn, show h = soloHub (router.subscribe 1 filter .atLeastOnce) idOf s disk' from hsubscribe]
  rfl

/-- It publishes to itself. -/
theorem turn_publish (idOf : AssocMap String ClientId) (s : Session) (disk : Option Disk)
    {router : Router} (filters : Finset String) (hid : s.nextId ≠ 0)
    (hroute : router.route "t" = ([(1, .atLeastOnce)], router)) :
    ∃ disk', turn (soloConn filters) (.packet (.publish sample)) (soloHub router idOf s disk) =
      some ((.next, soloConn filters), soloHub router idOf
        (s.received "t" [1] .atLeastOnce false 0 ⟨1, 1, 1⟩) disk') := by
  obtain ⟨disk', hpublish⟩ := soloHub_publish idOf disk [1] ⟨0, 0⟩ hid hroute
  have hreplay : Text.strip "$replay/" "t" = none := by decide +kernel
  have hallowed : (⟨["#"], ["#", "$dlq/#"]⟩ : Acl).canPublish "t" = true := by decide +kernel
  refine ⟨disk', ?_⟩
  simp only [turn, Conn.onInput, Conn.onPacket, Conn.onPublish, soloConn, sample, hreplay, hallowed,
    if_true]
  exact congrArg (Option.bind · fun out => some ((Flow.next, soloConn filters), out.2)) hpublish

/-! ### Routing -/

theorem accepted_everything : filterAccepted "#" = true := by decide

theorem accepted_deadLetters : filterAccepted "$dlq/#" = true := by decide

def soloRouter : Router :=
  (Router.new.subscribe 1 ⟨"#", accepted_everything⟩ .atLeastOnce).subscribe 1
    ⟨"$dlq/#", accepted_deadLetters⟩ .atLeastOnce

/-- Each topic reaches it once, through one of its two filters. -/
theorem route_soloRouter {topic : String}
    (hmatch : topicMatches "#" topic = true ∨ topicMatches "$dlq/#" topic = true) :
    soloRouter.route topic = ([(1, .atLeastOnce)], soloRouter) := by
  let subs : List Sub :=
    [⟨⟨"#", accepted_everything⟩, .atLeastOnce⟩, ⟨⟨"$dlq/#", accepted_deadLetters⟩, .atLeastOnce⟩]
  have hgranted : Router.maxGranted subs topic = some .atLeastOnce := by
    unfold Router.maxGranted TopicFilter.matchesTopic
    simp only [subs, List.filter_cons, List.filter_nil]
    rcases hmatch with hmatch | hmatch
    · rw [if_pos hmatch]
      split <;> rfl
    · rw [if_pos hmatch]
      split <;> rfl
  have hentries : soloRouter.normal.entries = [⟨1, subs⟩] := by decide +kernel
  have hnormal : soloRouter.matchingSubscribers topic = [(1, .atLeastOnce)] := by
    rw [Router.matchingSubscribers, hentries]
    simp only [List.filterMap_cons, hgranted]
    rfl
  rw [Router.route, hnormal]
  rfl

theorem topicMatches_dlqTopic (client topic : String) :
    topicMatches "$dlq/#" (Hub.dlqTopic client topic) = true := by
  have hroot : "$dlq/" = "$dlq" ++ String.singleton '/' := by decide +kernel
  have hlevels : levels (Hub.dlqTopic client topic) =
      "$dlq" :: levels (client ++ "/" ++ topic) := by
    have hsplit : Text.split '/' "$dlq" = ["$dlq"] := by decide +kernel
    have htopic : Hub.dlqTopic client topic =
        "$dlq" ++ String.singleton '/' ++ (client ++ "/" ++ topic) := by
      simp only [Hub.dlqTopic, hroot, String.append_assoc]
    rw [htopic, levels, Text.split_append, hsplit]
    rfl
  rw [topicMatches_iff, hlevels, show levels "$dlq/#" = ["$dlq", "#"] by decide +kernel,
    matchLevels_cons_cons (by decide)]
  exact ⟨fun hwild => absurd hwild.2 (by decide +kernel), by simp⟩

/-! ### The run -/

/-- A run leads to this hub with the client's connection waiting and no timer fired. -/
def Stands (conn : Conn) (h : Hub) : Prop :=
  ∃ s, Machine.Reaches (step openConfig) (start true ⟨1, 1, 1⟩ 0 0) s ∧ s.hub = h ∧
    s.parties.lookup 1 = some (.waiting conn) ∧ s.parties.lookup 2 = none

/-- A turn of the connection extends the run. -/
theorem Stands.turn {conn conn' : Conn} {h h' : Hub} (hstands : Stands conn h) {input : Input}
    (hturn : System.turn conn input h = some ((.next, conn'), h')) (hready : input.ready conn)
    (hwire : input.OnWire conn) : Stands conn' h' := by
  obtain ⟨s, hreach, rfl, hparty, hfree⟩ := hstands
  obtain ⟨s', hmore, hhub, hwaiting, hothers⟩ :=
    reaches_turn openConfig (reading 0) hparty hready hwire hturn
  exact ⟨s', hreach.trans hmore, hhub, hwaiting, (hothers 2 (by decide)).trans hfree⟩

/-- The client subscribes to everything and to all dead letters, and publishes. -/
theorem stands_queued {client : String} (hclient : client ≠ "")
    (hwire : (Wire.utf8 client).length < u16Bound) :
    ∃ filters idOf disk, Stands (soloConn filters) (soloHub soloRouter idOf
      ((soloSession client).received "t" [1] .atLeastOnce false 0 ⟨1, 1, 1⟩) disk) := by
  have haccepted : Stands (Conn.start "p") (start true ⟨1, 1, 1⟩ 0 0).hub :=
    ⟨_, .single (.accept 1 "p") rfl, rfl, rfl, rfl⟩
  have honWire :
      Input.OnWire (Conn.start "p") (.packet (.connect ⟨client, true, 60, none⟩ none)) := by
    have hsession : ConnectPacket.session ⟨client, true, 60, none⟩ "p" = (client, true) := by
      simp [ConnectPacket.session, hclient]
    refine ⟨?_, fun _ hw => nomatch hw⟩
    exact (congrArg (fun pair => (Wire.utf8 pair.1).length) hsession).trans_lt hwire
  obtain ⟨idOf, disk₁, hconnect⟩ := turn_connect hclient
  obtain ⟨disk₂, hplain⟩ := turn_subscribe .new idOf (soloSession client) disk₁
    ⟨"#", by decide⟩ (by decide +kernel : (soloConn ∅).admits 100 "#" = none) (by decide +kernel)
    (TopicFilter.parse_eq_some_iff.mpr rfl)
  obtain ⟨disk₃, hletters⟩ := turn_subscribe _ idOf (soloSession client) disk₂
    ⟨"$dlq/#", by decide⟩ (by decide +kernel : (soloConn {"#"}).admits 100 "$dlq/#" = none)
    (by decide +kernel) (TopicFilter.parse_eq_some_iff.mpr rfl)
  obtain ⟨disk₄, hpublish⟩ := turn_publish idOf (soloSession client) disk₃
    {"$dlq/#", "#"} Nat.one_ne_zero (route_soloRouter (.inl (by decide +kernel)))
  have hconnected := haccepted.turn hconnect rfl honWire
  have hsubscribed := (hconnected.turn hplain rfl trivial).turn hletters rfl trivial
  exact ⟨_, _, _, hsubscribed.turn hpublish rfl (by decide +kernel)⟩

/-- Whatever its identifier, a client that then acknowledges nothing gets the dead letter of
its own message. -/
theorem reaches_deadLetter {client : String} (hclient : client ≠ "")
    (hwire : (Wire.utf8 client).length < u16Bound) :
    ∃ s session, Machine.Reaches (step openConfig) (start true ⟨1, 1, 1⟩ 0 0) s ∧
      s.hub.sessions.byId.lookup 1 = some session ∧
      ∃ e ∈ session.inflight, ∃ p ∈ e.state.undelivered, p.topic = Hub.dlqTopic client "t" := by
  obtain ⟨filters, idOf, disk, s, hreach, hhub, -, hfree⟩ := stands_queued hclient hwire
  obtain ⟨disk', hretries⟩ := soloHub_runRetries idOf disk
    (s := (soloSession client).received "t" [1] .atLeastOnce false 0 ⟨1, 1, 1⟩)
    rfl rfl (by decide +kernel : isDlqTopic "t" = false) rfl (by decide : Session.bumpId 1 ≠ 0)
    (route_soloRouter (.inr (topicMatches_dlqTopic _ _)))
  have halone := (Routine.alone_runRetries (reading 5) _).trans
    (congrArg (Option.map fun h' => ((), h')) hretries)
  rw [← hhub] at halone
  obtain ⟨s', hfired, hhub'⟩ := reaches_fired openConfig (reading 5) (k := 2) (t := .retry)
    (AList.lookup_eq_none.mp hfree) trivial halone
  have hsession := congrArg (fun h => h.sessions.byId.lookup 1) hhub'
  exact ⟨s', _, hreach.trans hfired, hsession, _, List.mem_singleton_self _, _, rfl, rfl⟩

/-- The longest client identifier that fits into a CONNECT makes a dead letter that does not
fit into the blob. -/
theorem uncut_fails_long :
    ∃ s session, Machine.Reaches (step openConfig) (start true ⟨1, 1, 1⟩ 0 0) s ∧
      s.hub.sessions.byId.lookup 1 = some session ∧
      ∃ e ∈ session.inflight, ∃ p ∈ e.state.undelivered, 65535 < (Wire.utf8 p.topic).length := by
  let client := String.ofList (List.replicate 65535 'a')
  have hlength : (Wire.utf8 client).length = 65535 := by
    rw [Wire.utf8_eq_flatMap, String.toList_ofList, List.length_flatMap, List.map_replicate,
      List.sum_replicate]
    rfl
  have hclient : client ≠ "" := by
    intro hempty
    rw [hempty] at hlength
    cases hlength
  obtain ⟨s, session, hreach, hsession, e, he, p, hp, htopic⟩ :=
    reaches_deadLetter hclient (hlength.trans_lt (by decide))
  refine ⟨s, session, hreach, hsession, e, he, p, hp, ?_⟩
  rw [htopic, length_dlqTopic, hlength]
  omega

end System

end Relay
