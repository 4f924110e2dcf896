import Relay.Server.Contents
import Relay.Server.DeadLetters

/-! # Where contents come from

Contents enter the broker with the inputs of the connections and are made by the broker
itself only for dead letters. A property that what comes in has, and that a dead letter
takes over from its message, therefore holds of everything in every state: in the hub
and in the hands of every handler and routine. A routine relies for that on the answers it
gets, and the hub answers with what it holds.
-/

namespace Relay

/-- A property of contents that the length fields can hold and that the dead letter of a
message has, for clients and topics of a kind. -/
structure Lineage (P : String → Bytes → Prop) (D : String → String → Prop) : Prop where
  fits : ∀ topic payload, P topic payload → WireFits topic payload
  dead : ∀ client topic payload, P topic payload → isDlqTopic topic = false → D client topic →
    P (Hub.dlqTopic client topic) payload

section Kinds

variable (P : String → Bytes → Prop)

/-- The dead letter of a dead message has such contents, if there is one. -/
def DeadCarries (entry : String × DeadMsg) : Prop :=
  isDlqTopic entry.2.publish.topic = false →
    P (Hub.dlqTopic entry.1 entry.2.publish.topic) entry.2.publish.payload

def SnapshotsCarry (snapshots : List (String × Bytes)) : Prop :=
  ∀ snapshot ∈ snapshots, BlobCarries P snapshot.2

/-- A section hands out such contents only. -/
def Section.Answers : (a : Section) → a.Result → Prop
  | .expire _ _, dead => ∀ entry ∈ dead, DeadCarries P entry
  | .deliver _ _ _ _ _, out => SnapshotsCarry P out.2
  | .replayRetained _ _ _ _, snapshot => SnapshotsCarry P snapshot.toList
  | .tick _, out => (∀ entry ∈ out.1, DeadCarries P entry) ∧ SnapshotsCarry P out.2
  | .acknowledge _ _, snapshot => SnapshotsCarry P snapshot.toList
  | _, _ => True

def Act.Carries : Act → Prop
  | .enter a => a.Carries P
  | _ => True

/-- A routine is answered with such contents only. -/
def Act.Answers : (a : Act) → a.Result → Prop
  | .enter a, out => a.Answers P out
  | .matching _, messages => ∀ m ∈ messages, P m.topic m.payload
  | .events _, rows => ∀ events ∈ rows, ∀ row ∈ events, EventCarries P row.2
  | _, _ => True

/-- Whatever comes of it, the routine asks with such contents only. -/
abbrev Routine.Carries {A : Type} (post : A → Prop) (routine : Routine A) : Prop :=
  routine.Relies (Act.Answers P) (Act.Carries P) post

def Call.Carries : Call → Prop
  | .publish topic payload _ _ => P topic payload
  | _ => True

def Conn.Carries (conn : Conn) : Prop := ∀ w ∈ conn.will, P w.topic w.payload

def Party.Carries : Party → Prop
  | .waiting conn => conn.Carries P
  | .busy rest => Routine.Carries P (fun out => out.2.Carries P) rest
  | .finishing rest => Routine.Carries P (fun _ => True) rest

structure System.Carries (s : System) : Prop where
  hub : s.hub.Carries P
  parties : ∀ k party, s.parties.lookup k = some party → party.Carries P

end Kinds

variable {P : String → Bytes → Prop} {D : String → String → Prop}

/-! ## The hub answers with what it holds -/

namespace Hub

variable {h h' : Hub}

/-- Dead messages come out of the queues. -/
theorem Carries.taken (hh : h.Carries P) {a : Act} {entry : String × DeadMsg}
    (hentry : entry ∈ h.taken a) : P entry.2.publish.topic entry.2.publish.payload := by
  cases a with
  | enter sec =>
      cases sec with
      | expire id generation =>
          rw [Hub.taken] at hentry
          rcases h.expire_cases id generation with ⟨heq, -⟩ | ⟨s, hs, -, heq⟩
          · rw [heq] at hentry
            cases hentry
          · rw [heq] at hentry
            obtain ⟨msg, hmsg, rfl⟩ := List.mem_map.mp hentry
            exact (hh.sessions id s hs).dead_drain hmsg
      | tick now =>
          simp only [Hub.taken, Hub.tickAll, List.mem_flatMap, List.mem_map] at hentry
          obtain ⟨visit, ⟨s, hs, rfl⟩, msg, hmsg, rfl⟩ := hentry
          obtain ⟨id, hid⟩ := AssocMap.mem_values_iff.mp hs
          unfold tickSession at hmsg
          split at hmsg
          · cases hmsg
          · exact (hh.sessions id s hid).dead_tickRetries hmsg
      | _ => cases hentry
  | _ => cases hentry

section Answers

variable (hfits : ∀ topic payload, P topic payload → WireFits topic payload)

include hfits

/-- A snapshot has the contents of its queue. -/
theorem snapshotsCarry_of_session {s : Session} (hs : s.Carries P) :
    SnapshotsCarry P (h.snapshotInflight s).toList := by
  intro snapshot hsnapshot
  rw [Option.mem_toList, snapshotInflight] at hsnapshot
  split at hsnapshot
  · cases hsnapshot
    exact hs.blob hfits
  · cases hsnapshot

/-- Deliveries of such contents, and the snapshots taken after them. -/
theorem records_contents :
    Records P (Session.Carries P)
      fun op => ∀ c blob, op = .putInflight c blob → BlobCarries P blob where
  delivered hcontent hdeliver hs := hs.deliver hcontent hdeliver
  snapshot s hs c blob heq := by
    cases heq
    exact hs.blob hfits
  event _ _ _ _ heq := nomatch heq
  record _ _ _ heq := nomatch heq

theorem Carries.snapshots_deliver (hh : h.Carries P) {targets : List (ClientId × QoS)}
    {topic : String} {payload : Bytes} (hcontent : P topic payload) {msgQos : QoS} {now : Nat}
    {f : Fanout} (hdeliver : h.deliverAll targets topic payload msgQos now = some f) :
    SnapshotsCarry P f.toPersist := by
  have hstart : FanoutEach (Session.Carries P)
      (fun op => ∀ c blob, op = .putInflight c blob → BlobCarries P blob) ⟨0, [], h⟩ :=
    ⟨hh.sessions, fun _ hsnapshot => nomatch hsnapshot⟩
  have hend := (records_contents hfits).deliverAll hcontent hstart hdeliver
  exact fun snapshot hsnapshot => hend.snapshots snapshot hsnapshot _ _ rfl

theorem Carries.snapshot_replayRetained (hh : h.Carries P) {id : ClientId} {messages : List Message}
    (hmessages : ∀ m ∈ messages, P m.topic m.payload) {granted : QoS} {now : Nat}
    {snapshot : Option (String × Bytes)}
    (hreplay : h.replayRetained id messages granted now = some (snapshot, h')) :
    SnapshotsCarry P snapshot.toList := by
  have heach : h'.Each (Session.Carries P) := by
    refine Carries.each hh (a := .replayRetained id messages granted now) hmessages ?_
    rw [Hub.act, hreplay]
    rfl
  unfold replayRetained at hreplay
  split at hreplay
  · cases hreplay
    exact List.forall_mem_nil _
  next s hs =>
    obtain ⟨s', -, heq⟩ := Option.bind_eq_some_iff.mp hreplay
    cases heq
    have hs' : s'.Carries P := by
      refine heach id s' ?_
      rw [lookup_setSession hs, if_pos rfl]
    split
    · exact snapshotsCarry_of_session hfits hs'
    · exact List.forall_mem_nil _

/-- The snapshots of a tick are of sessions that hold such contents. -/
theorem Carries.snapshots_tick (hh : h.Carries P) (now : Nat) :
    SnapshotsCarry P (h.tickAll now).2.1 := by
  intro snapshot hsnapshot
  simp only [tickAll, List.mem_filterMap, List.mem_map] at hsnapshot
  obtain ⟨visit, ⟨s, hs, rfl⟩, hsnapshot⟩ := hsnapshot
  obtain ⟨id, hid⟩ := AssocMap.mem_values_iff.mp hs
  have hvisited : (h.tickSession now s).1.Carries P := by
    unfold tickSession
    split
    · exact hh.sessions id s hid
    · exact (hh.sessions id s hid).tickRetries now h.retry
  split at hsnapshot
  · exact snapshotsCarry_of_session hfits hvisited snapshot (Option.mem_toList.mpr hsnapshot)
  · cases hsnapshot

theorem Carries.snapshot_acknowledge (hh : h.Carries P) (id : ClientId) (ack : Ack) :
    SnapshotsCarry P (h.acknowledge id ack.apply).1.toList := by
  unfold acknowledge
  split
  · exact fun _ hnone => nomatch hnone
  next s hs =>
    have hacked : (ack.apply s).Carries P := by
      refine (hh.sessions id s hs).handle ?_ (Ack.handle h.retry s ack)
      cases ack <;> trivial
    exact snapshotsCarry_of_session hfits hacked

/-- A section that is given such contents hands out such contents, if the dead messages
that it takes out are of the kind. -/
theorem Carries.answers (hh : h.Carries P) {a : Section} (ha : a.Carries P)
    (hdead : ∀ entry ∈ h.taken (.enter a), DeadCarries P entry) {out : a.Result}
    (henter : h.enter a = some (out, h')) : a.Answers P out := by
  cases a with
  | expire id generation =>
      have hout : (h.expire id generation).1 = out := congrArg Prod.fst (Option.some.inj henter)
      subst hout
      exact hdead
  | deliver targets topic payload msgQos now =>
      obtain ⟨f, hf, heq⟩ := Option.map_eq_some_iff.mp henter
      cases heq
      exact hh.snapshots_deliver hfits ha hf
  | replayRetained id messages granted now => exact hh.snapshot_replayRetained hfits ha henter
  | tick now =>
      cases henter
      exact ⟨hdead, hh.snapshots_tick hfits now⟩
  | acknowledge id ack =>
      have hout : (h.acknowledge id ack.apply).1 = out :=
        congrArg Prod.fst (Option.some.inj henter)
      subst hout
      exact hh.snapshot_acknowledge hfits id ack
  | _ => trivial

/-- Whatever a routine asks with such contents, it gets such contents and leaves such
contents. -/
theorem Carries.attend (hh : h.Carries P) {r : Reading} {a : Act} (ha : a.Carries P)
    (hdead : ∀ entry ∈ h.taken a, DeadCarries P entry) {out : a.Result × Hub}
    (hattend : h.attend r a = some out) : out.2.Carries P ∧ a.Answers P out.1 := by
  cases a with
  | enter sec =>
      refine ⟨hh.act ha ?_, hh.answers hfits ha hdead hattend⟩
      rw [act_eq_enter, show h.enter sec = some out from hattend]
      rfl
  | clock =>
      cases hattend
      exact ⟨hh, trivial⟩
  | matching filter =>
      cases hattend
      exact ⟨hh, hh.retained.matching filter⟩
  | events start =>
      cases hattend
      refine ⟨hh, fun events hevents row hrow => ?_⟩
      obtain ⟨d, hd, rfl⟩ := Option.map_eq_some_iff.mp hevents
      exact (hh.disk d hd).storage.events row (List.mem_of_mem_filter hrow)
  | durable id =>
      cases hattend
      exact ⟨hh, trivial⟩
  | logLimit =>
      cases hattend
      exact ⟨hh, trivial⟩
  | flush =>
      refine ⟨?_, trivial⟩
      simp only [Hub.attend, Hub.perform] at hattend
      split at hattend
      · cases hattend
        exact hh.act (a := .enqueue (.flush r.ack)) trivial rfl
      · cases hattend
        exact hh
  | acknowledged ack =>
      refine ⟨?_, trivial⟩
      simp only [Hub.attend, Hub.perform] at hattend
      split at hattend
      · cases hattend
        exact hh
      · cases hattend
  | send reply =>
      cases hattend
      exact ⟨hh, trivial⟩

end Answers

end Hub

/-! ## Routines pass contents on -/

namespace Routine

theorem carries_writeAll {snapshots : List (String × Bytes)} (hall : SnapshotsCarry P snapshots) :
    Carries P (fun _ => True) (writeAll snapshots) := by
  induction snapshots with
  | nil => trivial
  | cons snapshot rest ih =>
      have hboth := List.forall_mem_cons.mp hall
      exact ⟨hboth.1, fun _ _ => ih hboth.2⟩

theorem carries_fanOut {topic : String} {payload : Bytes} (hcontent : P topic payload) (qos : QoS) :
    Carries P (fun _ => True) (fanOut topic payload qos) := by
  refine Program.relies_perform_bind trivial fun targets _ => ?_
  split
  · trivial
  · refine ⟨trivial, fun clock _ => ⟨hcontent, fun delivery hsnapshots => ?_⟩⟩
    exact (carries_writeAll hsnapshots).bind fun _ _ => trivial

section Publishing

variable (hl : Lineage P D)

include hl

theorem carries_journal {topic : String} {payload : Bytes} (hcontent : P topic payload)
    (qos : QoS) : Carries P (fun _ => True) (journal topic payload qos) := by
  refine Program.relies_perform_bind trivial fun limit _ => ?_
  split
  · refine ⟨trivial, fun clock _ => ?_⟩
    exact ⟨eventCarries_encode hl.fits hcontent clock.ts qos, fun _ _ => trivial⟩
  · trivial

theorem carries_announce {topic : String} {payload : Bytes} (hcontent : P topic payload) (qos : QoS)
    (retain : Bool) : Carries P (fun _ => True) (announce topic payload qos retain) := by
  cases retain with
  | false => exact carries_journal hl hcontent qos
  | true => exact ⟨hcontent, fun _ _ => ⟨hcontent, fun _ _ => carries_journal hl hcontent qos⟩⟩

/-- Publishing such contents asks for nothing else. -/
theorem carries_publish {topic : String} {payload : Bytes} (hcontent : P topic payload) (qos : QoS)
    (retain : Bool) : Carries P (fun _ => True) (publish topic payload qos retain) :=
  (carries_announce hl hcontent qos retain).bind fun _ _ => carries_fanOut hcontent qos

/-- A dead letter is published under its own topic. -/
theorem carries_deadLetter {entry : String × DeadMsg} (hentry : DeadCarries P entry)
    (reason : String) : Carries P (fun _ => True) (deadLetter entry.1 entry.2 reason) := by
  unfold deadLetter
  split
  · trivial
  next hdlq =>
    refine ⟨trivial, fun clock _ => ⟨trivial, fun _ _ => ?_⟩⟩
    exact (carries_publish hl (hentry (Bool.eq_false_iff.mpr hdlq)) _ false).bind fun _ _ => trivial

theorem carries_deadLetterAll {dead : List (String × DeadMsg)}
    (hdead : ∀ entry ∈ dead, DeadCarries P entry) (reason : String) :
    Carries P (fun _ => True) (deadLetterAll reason dead) := by
  induction dead with
  | nil => trivial
  | cons entry rest ih =>
      rw [List.forall_mem_cons] at hdead
      exact (carries_deadLetter hl hdead.1 reason).bind fun _ _ => ih hdead.2

/-- The routines of the timers. -/
theorem carries_timer (t : Timer) : Carries P (fun _ => True) t.routine := by
  cases t with
  | retry =>
      refine ⟨trivial, fun clock _ => ⟨trivial, fun visit hvisit => ?_⟩⟩
      exact (carries_writeAll hvisit.2).bind fun _ _ => carries_deadLetterAll hl hvisit.1 _
  | purge id generation => exact ⟨trivial, fun dead hdead => carries_deadLetterAll hl hdead _⟩

end Publishing

theorem carries_ifDurable (id : ClientId) {op : String → PersistOp}
    (hop : ∀ clientId, (op clientId).Carries P) : Carries P (fun _ => True) (ifDurable id op) := by
  refine ⟨trivial, fun client _ => ?_⟩
  cases client with
  | none => trivial
  | some clientId => exact ⟨hop clientId, fun _ _ => trivial⟩

theorem carries_deliverRetained (id : ClientId) (filter : TopicFilter) (granted : QoS) :
    Carries P (fun _ => True) (deliverRetained id filter granted) := by
  refine Program.relies_perform_bind trivial fun messages hmessages => ?_
  split
  · trivial
  · refine ⟨trivial, fun clock _ => ⟨hmessages, fun snapshot hsnapshot => ?_⟩⟩
    exact carries_writeAll hsnapshot

/-- What is replayed was read from the log. -/
theorem carries_replay (id : ClientId) (start : Nat) (filter : TopicFilter) :
    Carries P (fun _ => True) (replay id start filter) := by
  refine ⟨trivial, fun rows hrows => ?_⟩
  cases rows with
  | none => trivial
  | some events =>
      refine ⟨fun p hp => ?_, fun _ _ => trivial⟩
      obtain ⟨row, hrow, hpacket⟩ := List.mem_filterMap.mp hp
      exact copies_replayPacket (hrows events rfl row hrow) hpacket

/-- The routine of a call that carries such contents. -/
theorem carries_routine (hl : Lineage P D) {c : Call} (hc : c.Carries P) :
    Carries P (fun _ => True) c.routine := by
  cases c with
  | connect clientId cleanStart expirySecs =>
      exact ⟨trivial, fun _ _ => ⟨trivial, fun _ _ => trivial⟩⟩
  | subscribe id filter qos raw =>
      exact ⟨trivial, fun _ _ => carries_ifDurable id fun _ => trivial⟩
  | subscribeShared group id filter qos raw =>
      exact ⟨trivial, fun _ _ => carries_ifDurable id fun _ => trivial⟩
  | unsubscribe id raw =>
      refine ⟨trivial, fun removed _ => ?_⟩
      have hforget : Carries P (fun _ => True)
          (ifDurable id fun clientId => .removeSubscription clientId raw) :=
        carries_ifDurable id fun _ => trivial
      exact hforget.bind fun _ _ => trivial
  | deliverRetained id filter granted => exact carries_deliverRetained id filter granted
  | publish topic payload qos retain => exact carries_publish hl hc qos retain
  | replay id start filter => exact carries_replay id start filter
  | acknowledge id ack => exact ⟨trivial, fun snapshot hsnapshot => carries_writeAll hsnapshot⟩
  | _ => exact ⟨trivial, fun _ _ => trivial⟩

end Routine

/-! ## Handlers publish what came in -/

namespace Conn

variable {conn : Conn}

/-- Only a PUBLISH that is accepted needs to have the property. -/
theorem carries_onPublish {p : Publish} (hcontent : conn.accepts p = true → P p.topic p.payload) :
    (conn.onPublish p).Meets (Call.Carries P) fun out => out.2 = conn := by
  have hack (reason : AckReason) :
      (conn.acknowledge p reason).Meets (Call.Carries P) fun out => out.2 = conn :=
    meets_acknowledge (fun _ => trivial) (fun _ => trivial) fun _ => rfl
  unfold onPublish
  cases hid : conn.sessionId with
  | none => rfl
  | some id =>
      cases hreplay : Text.strip "$replay/" p.topic with
      | some rest =>
          dsimp only
          unfold onReplay
          cases parseReplay rest with
          | none => exact hack .success
          | some request =>
              dsimp only
              split
              · refine (meets_flush trivial fun _ => trivial).bind fun _ _ => ?_
                exact ⟨trivial, fun _ => hack .success⟩
              · exact hack .success
      | none =>
          dsimp only
          split
          next hallowed =>
            have hpublish : Call.Carries P (publishCall p) :=
              hcontent (by simp [accepts, hid, hreplay, hallowed])
            unfold onAuthorized
            split
            · exact ⟨hpublish, fun _ => rfl⟩
            · split
              · rfl
              · exact ⟨hpublish, fun _ => meets_reply trivial fun _ => rfl⟩
            · split
              · rfl
              · refine ⟨trivial, fun fresh => ?_⟩
                cases fresh with
                | false => exact meets_reply trivial fun _ => rfl
                | true => exact ⟨hpublish, fun _ => meets_reply trivial fun _ => rfl⟩
          next => exact hack .notAuthorized

/-- No other input is published. -/
theorem carries_of_permits {cfg : HandlerConfig} {input : Input}
    (hinput : ∀ p, input ≠ .packet (.publish p)) {c : Call} (hc : conn.Permits cfg input c) :
    c.Carries P := by
  cases c with
  | publish topic payload qos retain =>
      obtain ⟨-, -, -, p, hp, -⟩ := hc
      exact absurd hp (hinput p)
  | _ => trivial

/-- A Will comes in with its CONNECT. -/
theorem carries_becomes {cfg : HandlerConfig} {input : Input} (hconn : conn.Carries P)
    (horigins : ∀ o ∈ input.origins conn, P o.topic o.payload) {out : Flow × Conn}
    (hout : conn.Becomes cfg input out) : out.2.Carries P := by
  rw [Becomes] at hout
  cases haccepted : cfg.accepted input with
  | none =>
      rw [haccepted] at hout
      rw [Conn.Carries, hout.2.1]
      exact hconn
  | some grant =>
      rw [haccepted] at hout
      unfold HandlerConfig.accepted at haccepted
      split at haccepted
      next packet password =>
        split at haccepted
        · cases haccepted
        · split at haccepted
          · cases haccepted
            rw [Conn.Carries, hout.2.2]
            intro w hw
            exact horigins (.will w) (List.mem_map.mpr ⟨w, Option.mem_toList.mpr hw, rfl⟩)
          · cases haccepted
      next => cases haccepted

/-- Whatever the input, what is published came in with it, and so did a new Will. -/
theorem carries_onInput (cfg : HandlerConfig) {input : Input} (hconn : conn.Carries P)
    (horigins : ∀ o ∈ input.origins conn, P o.topic o.payload) :
    (conn.onInput cfg input).Meets (Call.Carries P) fun out => out.2.Carries P := by
  by_cases hpublish : ∃ p, input = .packet (.publish p)
  · obtain ⟨p, rfl⟩ := hpublish
    have hcontent : conn.accepts p = true → P p.topic p.payload := by
      intro haccepts
      refine horigins (.publish p) ?_
      rw [Input.origins, if_pos haccepts]
      exact List.mem_singleton_self _
    exact (carries_onPublish hcontent).mono (fun _ hc => hc) fun out hout => hout ▸ hconn
  · have hinput : ∀ p, input ≠ .packet (.publish p) := fun p hp => hpublish ⟨p, hp⟩
    exact (conn.permits_onInput cfg input).mono (fun _ hc => carries_of_permits hinput hc)
      fun _ hout => carries_becomes hconn horigins hout

/-- The Will is all that is published after the loop. -/
theorem carries_teardown (hconn : conn.Carries P) (cleanDisconnect : Bool) :
    (conn.teardown cleanDisconnect).Meets (Call.Carries P) fun _ => True := by
  refine (conn.permits_teardown cleanDisconnect).mono (fun c hc => ?_) fun _ _ => trivial
  cases c with
  | publish topic payload qos retain => exact hconn ⟨topic, payload, qos, retain⟩ hc
  | _ => trivial

end Conn

/-! ## The broker -/

theorem Party.carries_settle (hl : Lineage P D) {rest : Routine (Flow × Conn)}
    (hrest : Routine.Carries P (fun out => out.2.Carries P) rest) : (settle rest).Carries P := by
  cases rest with
  | call a next => exact hrest
  | done out =>
      obtain ⟨flow, conn⟩ := out
      cases flow with
      | next => exact hrest
      | leave clean =>
          exact (Conn.carries_teardown hrest clean).expand fun _ hc => Routine.carries_routine hl hc

namespace System

variable {s s' : System}

theorem Carries.become (hs : s.Carries P) (k : Nat) {party : Party} (hparty : party.Carries P) :
    (s.become k party).Carries P := by
  refine ⟨hs.hub, fun j other hother => ?_⟩
  rw [System.become, AssocMap.lookup_insert] at hother
  split at hother
  · cases hother
    exact hparty
  · exact hs.parties j other hother

/-- The condition under which a step keeps a property of contents: what it brings in has
the property, and the dead messages it takes out are of the kind. -/
structure Admits (P : String → Bytes → Prop) (D : String → String → Prop) (s : System)
    (a : SystemStep) : Prop where
  brings : ∀ o ∈ s.brings a, P o.topic o.payload
  taken : ∀ entry ∈ s.taken a, isDlqTopic entry.2.publish.topic = false →
    D entry.1 entry.2.publish.topic

/-- What the party in question asks for is carried out. -/
theorem Carries.own (hl : Lineage P D) (hs : s.Carries P) {k : Nat} {r : Reading}
    (hadmits : s.Admits P D (.own k r)) {party : Party} (hparty : s.parties.lookup k = some party)
    {a : Act} (hnext : party.next? = some a) (ha : a.Carries P) {out : a.Result × Hub}
    (hattend : s.hub.attend r a = some out) : out.2.Carries P ∧ a.Answers P out.1 := by
  have htaken : s.taken (.own k r) = s.hub.taken a := by
    rw [System.taken, hparty, Option.bind_some, hnext]
    rfl
  refine hs.hub.attend hl.fits ha (fun entry hentry hdlq => ?_) hattend
  exact hl.dead _ _ _ (hs.hub.taken hentry) hdlq (hadmits.taken entry (htaken ▸ hentry) hdlq)

/-- A broker without connections. -/
theorem carries_fresh {storage : Option Storage} (hstorage : ∀ st ∈ storage, st.Carries P)
    (retry : RetryConfig) (eventLogMax now : Nat) (origins : List Origin) :
    Carries P ⟨Hub.new storage retry eventLogMax now, ∅, origins⟩ :=
  ⟨Hub.carries_new hstorage retry eventLogMax now, fun _ _ hparty => nomatch hparty⟩

/-- The step lemma. -/
theorem Carries.step (hl : Lineage P D) {cfg : HandlerConfig} (hs : s.Carries P) {a : SystemStep}
    (hadmits : s.Admits P D a) (hstep : s.step cfg a = some s') : s'.Carries P := by
  cases a with
  | accept k peer =>
      rw [System.step] at hstep
      split at hstep
      · cases hstep
      · cases hstep
        refine hs.become k fun _ hw => ?_
        cases hw
  | receive k input =>
      have hbrings := hadmits.brings
      rw [System.step] at hstep
      rw [System.brings] at hbrings
      split at hstep
      next conn hparty =>
        rw [hparty] at hbrings
        split at hstep
        · cases hstep
          have htext := Conn.carries_onInput cfg (hs.parties k _ hparty) hbrings
          have hbecome := hs.become k
            (Party.carries_settle hl (htext.expand fun _ hc => Routine.carries_routine hl hc))
          exact ⟨hbecome.hub, hbecome.parties⟩
        · cases hstep
      next => cases hstep
  | fire k t =>
      rw [System.step] at hstep
      split at hstep
      · cases hstep
        exact hs.become k (Routine.carries_timer hl t)
      · cases hstep
  | own k r =>
      rw [System.step] at hstep
      split at hstep
      next a next hparty =>
        obtain ⟨out, hattend, rfl⟩ := Option.map_eq_some_iff.mp hstep
        obtain ⟨ha, hrest⟩ := hs.parties k _ hparty
        obtain ⟨hhub, hanswer⟩ := hs.own hl hadmits hparty rfl ha hattend
        exact ⟨hhub, (hs.become k (Party.carries_settle hl (hrest out.1 hanswer))).parties⟩
      next a next hparty =>
        obtain ⟨out, hattend, rfl⟩ := Option.map_eq_some_iff.mp hstep
        obtain ⟨ha, hrest⟩ := hs.parties k _ hparty
        obtain ⟨hhub, hanswer⟩ := hs.own hl hadmits hparty rfl ha hattend
        have hgone : (Party.finishing (next out.1)).Carries P := hrest out.1 hanswer
        exact ⟨hhub, (hs.become k hgone).parties⟩
      next => cases hstep
  | work =>
      obtain ⟨h, hwork, rfl⟩ := Option.map_eq_some_iff.mp hstep
      exact ⟨hs.hub.work hwork, hs.parties⟩
  | restart applied retry eventLogMax now =>
      cases hstep
      refine carries_fresh (fun st hst => ?_) retry eventLogMax now s.origins
      obtain ⟨d, hd, rfl⟩ := Option.map_eq_some_iff.mp hst
      exact (hs.hub.disk d hd).crashed applied

/-- A broker on an empty store holds no contents. -/
theorem carries_start (durable : Bool) (retry : RetryConfig) (eventLogMax now : Nat) :
    (start durable retry eventLogMax now).Carries P := by
  refine carries_fresh (fun st hst => ?_) retry eventLogMax now []
  split at hst
  · cases hst
    exact Storage.carries_empty
  · cases hst

end System

end Relay
