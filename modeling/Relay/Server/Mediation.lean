import Relay.Server.Handler

/-! # Complete mediation

Whatever a client sends, in any order and however the connection ends, the
handler asks for nothing that was not authorised before: for nothing but flushes
until a CONNECT is accepted, and for no publish and no subscription that the
permissions in force do not cover. The properties are proved of the handler's
text first, for every answer of the hub, and then hold in every run.
-/

namespace Relay

structure Grant where
  acl : Acl
  will : Option Message

def inForce (grants : List Grant) : Acl := (grants.getLast?.map Grant.acl).getD Acl.default

/-- A CONNECT is accepted if its token authenticates and its Will is one that the
principal may publish. -/
def HandlerConfig.accepted (cfg : HandlerConfig) : Input → Option Grant
  | .packet (.connect packet password) =>
      match cfg.authenticate password with
      | none => none
      | some acl =>
          if packet.will.all fun w => acl.canPublish w.topic then some ⟨acl, packet.will⟩ else none
  | _ => none

/-! ## The text of the handler -/

namespace Conn

/-- A subscription to what a filter string of the SUBSCRIBE in hand stands for,
checked as it is installed. -/
structure Subscribes (conn : Conn) (input : Input) (id : ClientId) (raw : String)
    (filter : TopicFilter) : Prop where
  session : conn.sessionId = some id
  allowed : conn.access.canSubscribe filter.asStr = true
  same : effectiveFilter raw = filter.asStr
  sent : ∃ packetId filters, input = .packet (.subscribe packetId filters) ∧
    raw ∈ filters.map Prod.fst

/-- The calls that an input may lead to, given the variables before it. -/
def Permits (cfg : HandlerConfig) (conn : Conn) (input : Input) : Call → Prop
  | .connect _ _ _ => (cfg.accepted input).isSome
  | .publish topic _ _ _ =>
      conn.sessionId.isSome ∧ conn.access.canPublish topic = true ∧
        Text.strip "$replay/" topic = none ∧ ∃ p, input = .packet (.publish p) ∧ p.topic = topic
  | .subscribe id filter _ raw => conn.Subscribes input id raw filter
  | .subscribeShared _ id filter _ raw => conn.Subscribes input id raw filter
  | .replay id _ filter => conn.sessionId = some id ∧ conn.access.canSubscribe filter.asStr = true
  | .unsubscribe id _ => conn.sessionId = some id
  | .deliverRetained id _ _ => conn.sessionId = some id
  | .acknowledge id _ => conn.sessionId = some id
  | .inboundQos2Seen id _ => conn.sessionId = some id
  | .inboundQos2Release id _ => conn.sessionId = some id
  | .detach _ _ => False
  | .flush => True
  | .acknowledged _ => True
  | .send _ => True

/-- Nothing but the active filters changed. -/
def Kept (conn conn' : Conn) : Prop := conn' = { conn with activeFilters := conn'.activeFilters }

theorem Kept.refl (conn : Conn) : conn.Kept conn := rfl

theorem Kept.activate {conn conn' : Conn} (hkept : conn.Kept conn') (filters : Finset String) :
    conn.Kept { conn' with activeFilters := filters } := by
  rw [Kept] at hkept ⊢
  rw [hkept]

theorem Kept.access {conn conn' : Conn} (hkept : conn.Kept conn') : conn'.access = conn.access := by
  rw [hkept]

/-- The variables after an input: an accepted CONNECT replaces session,
permissions and Will, anything else leaves them, a refused CONNECT on its way out
apart. -/
def Becomes (cfg : HandlerConfig) (conn : Conn) (input : Input) (out : Flow × Conn) : Prop :=
  match cfg.accepted input with
  | some grant =>
      out.2.sessionId.isSome ∧ out.2.access = grant.acl ∧ out.2.will = grant.will
  | none =>
      out.2.sessionId = conn.sessionId ∧ out.2.will = conn.will ∧
        (out.1 = .next → out.2.access = conn.access)

theorem Kept.becomes {cfg : HandlerConfig} {conn conn' : Conn} {input : Input}
    (hkept : conn.Kept conn') (hinput : cfg.accepted input = none) (flow : Flow) :
    conn.Becomes cfg input (flow, conn') := by
  rw [Becomes, hinput, hkept]
  exact ⟨rfl, rfl, fun _ => rfl⟩

section Text

variable {cfg : HandlerConfig} {conn : Conn}

/-- Whatever the token, a CONNECT leads to a CONNACK and to at most one session. -/
theorem permits_onConnect (packet : ConnectPacket) (password : Option Bytes) :
    (conn.onConnect cfg packet password).Meets
      (conn.Permits cfg (.packet (.connect packet password)))
      (conn.Becomes cfg (.packet (.connect packet password))) := by
  unfold onConnect
  cases hauth : cfg.authenticate password with
  | none =>
      refine meets_refuse trivial ?_
      simp [Becomes, HandlerConfig.accepted, hauth]
  | some acl =>
      dsimp only
      split
      next hwill =>
        have haccepted : cfg.accepted (.packet (.connect packet password)) =
            some ⟨acl, packet.will⟩ := by
          simp only [HandlerConfig.accepted, hauth, hwill, if_true]
        refine ⟨by simp [Permits, haccepted], fun connected => meets_reply trivial fun flow => ?_⟩
        simp [Becomes, haccepted]
      next hwill =>
        refine meets_refuse trivial ?_
        simp [Becomes, HandlerConfig.accepted, hauth, hwill]

/-- A filter is installed only if it was checked. -/
theorem permits_onFilter {conn' : Conn} (hkept : conn.Kept conn') {id : ClientId}
    (hid : conn.sessionId = some id) {packetId : Nat} {filters : List (String × QoS)}
    {raw : String} {qos : QoS} (hraw : (raw, qos) ∈ filters) :
    (conn'.onFilter cfg id raw qos).Meets
      (conn.Permits cfg (.packet (.subscribe packetId filters)))
      fun out => conn.Kept out.2.2 := by
  have hsent : ∃ k fs, Input.packet (.subscribe packetId filters) = .packet (.subscribe k fs) ∧
      raw ∈ fs.map Prod.fst := ⟨packetId, filters, rfl, List.mem_map_of_mem hraw⟩
  unfold onFilter
  dsimp only
  cases hadmits : conn'.admits cfg.limit raw with
  | some refused => exact hkept
  | none =>
      have hallowed : conn.access.canSubscribe (effectiveFilter raw) = true := by
        by_contra hdenied
        simp [admits, hkept.access, hdenied] at hadmits
      cases hshared : SharedSubscription.parse raw with
      | some shared =>
          have hsame : effectiveFilter raw = shared.filter.asStr := by
            simp [effectiveFilter, hshared]
          exact ⟨⟨hid, hsame ▸ hallowed, hsame, hsent⟩, fun _ => hkept.activate _⟩
      | none =>
          have hplain : effectiveFilter raw = raw := by simp [effectiveFilter, hshared]
          cases hfilter : TopicFilter.parse raw with
          | none => exact hkept
          | some filter =>
              have hsame : effectiveFilter raw = filter.asStr :=
                hplain.trans (TopicFilter.parse_eq_some_iff.mp hfilter).symm
              exact ⟨⟨hid, hsame ▸ hallowed, hsame, hsent⟩, fun _ => hkept.activate _⟩

theorem permits_onFilters {conn' : Conn} (hkept : conn.Kept conn') {id : ClientId}
    (hid : conn.sessionId = some id) {packetId : Nat} {filters rest : List (String × QoS)}
    (hrest : rest ⊆ filters) :
    (onFilters cfg id rest conn').Meets
      (conn.Permits cfg (.packet (.subscribe packetId filters)))
      fun out => conn.Kept out.2.2 := by
  induction rest generalizing conn' with
  | nil => exact hkept
  | cons entry rest ih =>
      refine (permits_onFilter hkept hid (hrest List.mem_cons_self)).bind fun out hout => ?_
      refine (ih hout (List.subset_of_cons_subset hrest)).bind fun out' hout' => ?_
      exact hout'

theorem permits_deliverJobs {id : ClientId} (hid : conn.sessionId = some id) (input : Input)
    (jobs : List (TopicFilter × QoS)) :
    (deliverJobs id jobs).Meets (conn.Permits cfg input) fun _ => True := by
  induction jobs with
  | nil => trivial
  | cons job rest ih => exact ⟨hid, fun _ => ih⟩

theorem permits_onSubscribe (packetId : Nat) (filters : List (String × QoS)) :
    (conn.onSubscribe cfg packetId filters).Meets
      (conn.Permits cfg (.packet (.subscribe packetId filters)))
      (conn.Becomes cfg (.packet (.subscribe packetId filters))) := by
  unfold onSubscribe
  cases hid : conn.sessionId with
  | none => exact (Kept.refl conn).becomes rfl _
  | some id =>
      refine (permits_onFilters (Kept.refl conn) hid (List.Subset.refl filters)).bind ?_
      rintro ⟨status, jobs, conn'⟩ hkept
      refine ⟨trivial, fun written => ?_⟩
      cases written with
      | false => exact hkept.becomes rfl _
      | true =>
          exact (permits_deliverJobs hid _ jobs).bind fun _ _ => hkept.becomes rfl _

theorem permits_acknowledge {input : Input} (hinput : cfg.accepted input = none) (p : Publish)
    (reason : AckReason) :
    (conn.acknowledge p reason).Meets (conn.Permits cfg input) (conn.Becomes cfg input) := by
  exact meets_acknowledge (fun _ => trivial) (fun _ => trivial) ((Kept.refl conn).becomes hinput)

/-- A replay request is answered or replayed, and never published. -/
theorem permits_onReplay {id : ClientId} (hid : conn.sessionId = some id) {input : Input}
    (hinput : cfg.accepted input = none) (p : Publish) (rest : String) :
    (conn.onReplay id p rest).Meets (conn.Permits cfg input) (conn.Becomes cfg input) := by
  have hack : (conn.acknowledge p .success).Meets (conn.Permits cfg input)
      (conn.Becomes cfg input) := permits_acknowledge hinput p .success
  unfold onReplay
  cases parseReplay rest with
  | none => exact hack
  | some request =>
      obtain ⟨start, filter⟩ := request
      dsimp only
      split
      next hallowed =>
        refine (meets_flush trivial fun _ => trivial).bind fun _ _ => ?_
        exact ⟨⟨hid, hallowed⟩, fun _ => hack⟩
      next => exact hack

/-- The handler routes the topic that it has just checked. -/
theorem permits_onAuthorized {id : ClientId} (hid : conn.sessionId = some id) {p : Publish}
    (hallowed : conn.access.canPublish p.topic = true)
    (hreplay : Text.strip "$replay/" p.topic = none) :
    (conn.onAuthorized id p).Meets (conn.Permits cfg (.packet (.publish p)))
      (conn.Becomes cfg (.packet (.publish p))) := by
  have hbecomes : ∀ flow, conn.Becomes cfg (.packet (.publish p)) (flow, conn) :=
    (Kept.refl conn).becomes rfl
  have hpublish : conn.Permits cfg (.packet (.publish p)) (publishCall p) :=
    ⟨by simp [hid], hallowed, hreplay, p, rfl, rfl⟩
  unfold onAuthorized
  split
  · exact ⟨hpublish, fun _ => hbecomes _⟩
  · split
    · exact hbecomes _
    · exact ⟨hpublish, fun _ => meets_reply trivial hbecomes⟩
  · split
    · exact hbecomes _
    · refine ⟨hid, fun fresh => ?_⟩
      cases fresh with
      | false => exact meets_reply trivial hbecomes
      | true => exact ⟨hpublish, fun _ => meets_reply trivial hbecomes⟩

/-- The check comes before everything that a PUBLISH leads to. -/
theorem permits_onPublish (p : Publish) :
    (conn.onPublish p).Meets (conn.Permits cfg (.packet (.publish p)))
      (conn.Becomes cfg (.packet (.publish p))) := by
  unfold onPublish
  cases hid : conn.sessionId with
  | none => exact (Kept.refl conn).becomes rfl _
  | some id =>
      cases hreplay : Text.strip "$replay/" p.topic with
      | some rest => exact permits_onReplay hid rfl p rest
      | none =>
          dsimp only
          split
          next hallowed => exact permits_onAuthorized hid hallowed hreplay
          next => exact permits_acknowledge rfl p .notAuthorized

theorem permits_unsubscribeAll {conn' : Conn} (hkept : conn.Kept conn') {id : ClientId}
    (hid : conn.sessionId = some id) (input : Input) (filters : List String) :
    (unsubscribeAll id filters conn').Meets (conn.Permits cfg input)
      fun out => conn.Kept out.2 := by
  induction filters generalizing conn' with
  | nil => exact hkept
  | cons raw rest ih =>
      refine ⟨hid, fun existed => (ih (hkept.activate _)).bind fun out hout => ?_⟩
      exact hout

theorem permits_onUnsubscribe (packetId : Nat) (filters : List String) :
    (conn.onUnsubscribe packetId filters).Meets
      (conn.Permits cfg (.packet (.unsubscribe packetId filters)))
      (conn.Becomes cfg (.packet (.unsubscribe packetId filters))) := by
  unfold onUnsubscribe
  cases hid : conn.sessionId with
  | none => exact (Kept.refl conn).becomes rfl _
  | some id =>
      refine (permits_unsubscribeAll (Kept.refl conn) hid _ filters).bind ?_
      rintro ⟨existed, conn'⟩ hkept
      exact meets_reply trivial fun flow => hkept.becomes rfl flow

theorem permits_onAck {input : Input} (hinput : cfg.accepted input = none) (ack : Ack) :
    (conn.onAck ack).Meets (conn.Permits cfg input) (conn.Becomes cfg input) := by
  have hbecomes := (Kept.refl conn).becomes hinput
  unfold onAck
  cases hid : conn.sessionId with
  | none => exact hbecomes _
  | some id => exact ⟨hid, fun _ => hbecomes _⟩

theorem permits_onRelease {input : Input} (hinput : cfg.accepted input = none) (packetId : Nat) :
    (conn.onRelease packetId).Meets (conn.Permits cfg input) (conn.Becomes cfg input) := by
  have hreply : (conn.reply (.publishComplete packetId)).Meets (conn.Permits cfg input)
      (conn.Becomes cfg input) := meets_reply trivial ((Kept.refl conn).becomes hinput)
  unfold onRelease
  cases hid : conn.sessionId with
  | none => exact hreply
  | some id => exact ⟨hid, fun _ => hreply⟩

/-- Every input, whatever the hub answers. -/
theorem permits_onInput (cfg : HandlerConfig) (conn : Conn) (input : Input) :
    (conn.onInput cfg input).Meets (conn.Permits cfg input) (conn.Becomes cfg input) := by
  have hbecomes : cfg.accepted input = none → ∀ flow, conn.Becomes cfg input (flow, conn) :=
    (Kept.refl conn).becomes
  cases input with
  | ended => exact hbecomes rfl _
  | outgoing packet =>
      cases packet with
      | none => exact hbecomes rfl _
      | some packet => exact meets_reply trivial (hbecomes rfl)
  | packet p =>
      cases p with
      | connect packet password => exact permits_onConnect packet password
      | subscribe packetId filters => exact permits_onSubscribe packetId filters
      | publish p => exact permits_onPublish p
      | publishAck pid => exact permits_onAck rfl _
      | publishReceived pid => exact permits_onAck rfl _
      | publishComplete pid => exact permits_onAck rfl _
      | publishRelease pid => exact permits_onRelease rfl pid
      | unsubscribe packetId filters => exact permits_onUnsubscribe packetId filters
      | pingRequest =>
          exact (meets_flush trivial fun _ => trivial).bind fun _ _ =>
            meets_reply trivial (hbecomes rfl)
      | disconnect normal => exact hbecomes rfl _
      | other => exact hbecomes rfl _

end Text

/-- The calls after the loop: the Will as it was registered, and the detach. -/
def PermitsAtEnd (conn : Conn) : Call → Prop
  | .publish topic payload qos retain => conn.will = some ⟨topic, payload, qos, retain⟩
  | .detach id generation => conn.sessionId = some id ∧ conn.generation = generation
  | _ => False

/-- After the loop only the Will is published. -/
theorem permits_teardown (conn : Conn) (cleanDisconnect : Bool) :
    (conn.teardown cleanDisconnect).Meets conn.PermitsAtEnd fun _ => True := by
  have hwill : ∀ w, (if cleanDisconnect then none else conn.will) = some w →
      conn.will = some w := by
    intro w hw
    cases cleanDisconnect with
    | true => cases hw
    | false => exact hw
  unfold teardown
  cases hid : conn.sessionId with
  | none =>
      cases hchoice : (if cleanDisconnect then none else conn.will) with
      | none => trivial
      | some w => exact ⟨hwill w hchoice, fun _ => trivial⟩
  | some id =>
      have hdetach : (call (.detach id conn.generation)).Meets conn.PermitsAtEnd fun _ => True :=
        ⟨⟨hid, rfl⟩, fun _ => trivial⟩
      cases hchoice : (if cleanDisconnect then none else conn.will) with
      | none => exact hdetach
      | some w => exact ⟨hwill w hchoice, fun _ => hdetach⟩

/-- The variables hold what the accepted CONNECTs brought into force. -/
structure Holds (conn : Conn) (grants : List Grant) : Prop where
  session : conn.sessionId.isSome ↔ grants ≠ []
  will : conn.will = grants.getLast?.bind Grant.will

/-- An accepted CONNECT is the only input that changes what is in force. -/
theorem Holds.becomes {cfg : HandlerConfig} {conn : Conn} {grants : List Grant} {input : Input}
    {out : Flow × Conn} (hholds : conn.Holds grants) (haccess : conn.access = inForce grants)
    (hbecomes : conn.Becomes cfg input out) :
    out.2.Holds (grants ++ (cfg.accepted input).toList) ∧
      (out.1 = .next → out.2.access = inForce (grants ++ (cfg.accepted input).toList)) := by
  rw [Becomes] at hbecomes
  cases haccepted : cfg.accepted input with
  | none =>
      rw [haccepted] at hbecomes
      obtain ⟨hsession, hwill, hsame⟩ := hbecomes
      rw [Option.toList_none, List.append_nil]
      exact ⟨⟨hsession ▸ hholds.session, hwill.trans hholds.will⟩,
        fun hnext => (hsame hnext).trans haccess⟩
  | some grant =>
      rw [haccepted] at hbecomes
      obtain ⟨hsession, haccess', hwill⟩ := hbecomes
      rw [Option.toList_some]
      refine ⟨⟨by simp [hsession], ?_⟩, fun _ => ?_⟩
      · rw [hwill, List.getLast?_concat, Option.bind_some]
      · rw [haccess', inForce, List.getLast?_concat, Option.map_some, Option.getD_some]

end Conn

/-! ## Runs of a connection -/

def LiveStep.grant? (cfg : HandlerConfig) : LiveStep → Option Grant
  | .receive input => cfg.accepted input
  | .own _ => none
  | .env _ => none

def grants (cfg : HandlerConfig) (steps : List LiveStep) : List Grant :=
  steps.filterMap (LiveStep.grant? cfg)

namespace Phase

def nextCall : Phase → Option Call
  | .busy _ _ (.call c _) => some c
  | .ending _ (.call c _) => some c
  | _ => none

def input? : Phase → Option Input
  | .busy _ input _ => some input
  | _ => none

def Mediated (cfg : HandlerConfig) (grants : List Grant) : Phase → Prop
  | .waiting conn => conn.Holds grants ∧ conn.access = inForce grants
  | .busy conn input rest =>
      ∃ before, grants = before ++ (cfg.accepted input).toList ∧ conn.Holds before ∧
        conn.access = inForce before ∧
        rest.Meets (conn.Permits cfg input) (conn.Becomes cfg input)
  | .ending conn rest => conn.Holds grants ∧ rest.Meets conn.PermitsAtEnd fun _ => True

theorem mediated_settle {cfg : HandlerConfig} {conn : Conn} {input : Input} {before : List Grant}
    {rest : Handler (Flow × Conn)} (hholds : conn.Holds before)
    (haccess : conn.access = inForce before)
    (hrest : rest.Meets (conn.Permits cfg input) (conn.Becomes cfg input)) :
    (settle conn input rest).Mediated cfg (before ++ (cfg.accepted input).toList) := by
  cases rest with
  | call c next => exact ⟨before, rfl, hholds, haccess, hrest⟩
  | done out =>
      obtain ⟨hholds', hnext⟩ := hholds.becomes haccess hrest
      obtain ⟨flow, conn'⟩ := out
      cases flow with
      | next => exact ⟨hholds', hnext rfl⟩
      | leave clean => exact ⟨hholds', conn'.permits_teardown clean⟩

end Phase

namespace Live

/-- The calls of an input are judged by the variables before it, so nothing changes in the
middle. -/
theorem mediated_step {cfg : HandlerConfig} {l l' : Live} {a : LiveStep} {grants : List Grant}
    (hl : l.phase.Mediated cfg grants) (hstep : l.step cfg a = some l') :
    l'.phase.Mediated cfg (grants ++ (a.grant? cfg).toList) := by
  cases a with
  | receive input =>
      simp only [step] at hstep
      split at hstep
      next conn hphase =>
        split at hstep
        · cases hstep
          rw [hphase] at hl
          exact Phase.mediated_settle hl.1 hl.2 (conn.permits_onInput cfg input)
        · cases hstep
      next => cases hstep
  | own r =>
      rw [LiveStep.grant?, Option.toList_none, List.append_nil]
      simp only [step] at hstep
      split at hstep
      next conn input c next hphase =>
        obtain ⟨out, -, rfl⟩ := Option.map_eq_some_iff.mp hstep
        rw [hphase] at hl
        obtain ⟨before, rfl, hholds, haccess, hrest⟩ := hl
        exact Phase.mediated_settle hholds haccess (hrest.2 out.1)
      next conn c next hphase =>
        obtain ⟨out, -, rfl⟩ := Option.map_eq_some_iff.mp hstep
        rw [hphase] at hl
        exact ⟨hl.1, hl.2.2 out.1⟩
      next => cases hstep
  | env a =>
      rw [LiveStep.grant?, Option.toList_none, List.append_nil]
      obtain ⟨h, -, rfl⟩ := Option.map_eq_some_iff.mp hstep
      exact hl

/-- The invariant of a run, with what came into force on the way. -/
theorem mediated_run {cfg : HandlerConfig} {l l' : Live} {steps : List LiveStep}
    {before : List Grant} (hl : l.phase.Mediated cfg before)
    (hrun : Machine.run (step cfg) l steps = some l') :
    l'.phase.Mediated cfg (before ++ grants cfg steps) := by
  induction steps generalizing l before with
  | nil =>
      cases hrun
      rwa [grants, List.filterMap_nil, List.append_nil]
  | cons a steps ih =>
      obtain ⟨l₁, hstep, hrest⟩ := Machine.run_cons_eq_some.mp hrun
      have htail := ih (mediated_step hl hstep) hrest
      rw [List.append_assoc] at htail
      rw [grants, List.filterMap_cons]
      cases ha : a.grant? cfg with
      | none => rwa [ha] at htail
      | some grant => rwa [ha] at htail

theorem mediated_start (cfg : HandlerConfig) (hub : Hub) (peer : String) :
    (start hub peer).phase.Mediated cfg [] :=
  ⟨⟨by simp [Conn.start], rfl⟩, rfl⟩

end Live

/-- The filter string and the filter of a call that installs a subscription. -/
def Call.installs : Call → Option (String × TopicFilter)
  | .subscribe _ filter _ raw => some (raw, filter)
  | .subscribeShared _ _ filter _ raw => some (raw, filter)
  | _ => none

/-- What mediation says of a state of a connection, given what came into force:
before anything did the connection leaves the hub as it is, flushes apart; a
PUBLISH is routed under the permissions in force; a published Will was allowed
when it was registered; a subscription is installed for the very filter that was
checked; and the replay namespace is never published to. -/
structure Live.Mediation (cfg : HandlerConfig) (grants : List Grant) (l : Live) : Prop where
  untouched : grants = [] → ∀ r l', l.step cfg (.own r) = some l' →
    l'.hub = l.hub ∨ ∃ ack, l'.hub = l.hub.flush ack
  publish : ∀ input topic payload qos retain, l.phase.input? = some input →
    l.phase.nextCall = some (.publish topic payload qos retain) →
      (inForce grants).canPublish topic = true ∧
        ∃ p, input = .packet (.publish p) ∧ p.topic = topic
  will : ∀ topic payload qos retain, l.phase.input? = none →
    l.phase.nextCall = some (.publish topic payload qos retain) →
      ∃ grant, grants.getLast? = some grant ∧ grant.will = some ⟨topic, payload, qos, retain⟩ ∧
        grant.acl.canPublish topic = true
  subscribe : ∀ c raw filter, l.phase.nextCall = some c → c.installs = some (raw, filter) →
    (inForce grants).canSubscribe (effectiveFilter raw) = true ∧ filter.asStr = effectiveFilter raw
  reserved : ∀ topic payload qos retain,
    l.phase.nextCall = some (.publish topic payload qos retain) →
      Text.startsWith "$replay/" topic = false

theorem HandlerConfig.canPublish_of_accepted {cfg : HandlerConfig} {input : Input} {grant : Grant}
    (haccepted : cfg.accepted input = some grant) {w : Message} (hw : grant.will = some w) :
    grant.acl.canPublish w.topic = true := by
  unfold accepted at haccepted
  split at haccepted
  next packet password =>
    split at haccepted
    · cases haccepted
    next acl _ =>
      split at haccepted
      next hallowed =>
        cases haccepted
        dsimp only at hw
        simpa [hw] using hallowed
      next => cases haccepted
  next => cases haccepted

namespace Conn

/-- Without a session only flushes and writes to the socket are possible. -/
theorem hub_of_permits {cfg : HandlerConfig} {conn : Conn} {input : Input} {c : Call} {h : Hub}
    {r : Reading} {out : c.Result × Hub} (hsession : conn.sessionId = none)
    (haccepted : cfg.accepted input = none) (hpermits : conn.Permits cfg input c)
    (hperform : h.perform r c = some out) : out.2 = h ∨ ∃ ack, out.2 = h.flush ack := by
  cases c with
  | flush =>
      simp only [Hub.perform] at hperform
      split at hperform
      · cases hperform
        exact Or.inr ⟨r.ack, rfl⟩
      · cases hperform
        exact Or.inl rfl
  | acknowledged ack =>
      simp only [Hub.perform] at hperform
      split at hperform
      · cases hperform
        exact Or.inl rfl
      · cases hperform
  | send reply =>
      cases hperform
      exact Or.inl rfl
  | subscribe id filter qos raw =>
      rw [Subscribes.session hpermits] at hsession
      cases hsession
  | subscribeShared group id filter qos raw =>
      rw [Subscribes.session hpermits] at hsession
      cases hsession
  | _ => simp [Permits, hsession, haccepted] at hpermits

end Conn

namespace Live

/-- Before any CONNECT is accepted the connection leaves the hub as it is. -/
theorem untouched_of_mediated {cfg : HandlerConfig} {l l' : Live} {r : Reading}
    (hl : l.phase.Mediated cfg []) (hstep : l.step cfg (.own r) = some l') :
    l'.hub = l.hub ∨ ∃ ack, l'.hub = l.hub.flush ack := by
  simp only [step] at hstep
  split at hstep
  next conn input c next hphase =>
    obtain ⟨out, hperform, rfl⟩ := Option.map_eq_some_iff.mp hstep
    rw [hphase] at hl
    obtain ⟨before, hbefore, hholds, -, hrest⟩ := hl
    obtain ⟨rfl, haccepted⟩ := List.append_eq_nil_iff.mp hbefore.symm
    have hsession : conn.sessionId = none := by simpa using hholds.session
    exact Conn.hub_of_permits hsession (Option.toList_eq_nil_iff.mp haccepted) hrest.1 hperform
  next conn c next hphase =>
    -- nothing was registered, so nothing is left to do after the loop
    rw [hphase] at hl
    obtain ⟨hholds, hrest⟩ := hl
    have hsession : conn.sessionId = none := by simpa using hholds.session
    have hwill : conn.will = none := by simpa using hholds.will
    have hpermits := hrest.1
    cases c <;> simp [Conn.PermitsAtEnd, hsession, hwill] at hpermits
  next => cases hstep

end Live

namespace Phase

variable {cfg : HandlerConfig} {grants : List Grant} {phase : Phase} {c : Call}

/-- The next call for an input, with the permissions in force. -/
theorem Mediated.permits {input : Input} (hphase : phase.Mediated cfg grants)
    (hinput : phase.input? = some input) (hcall : phase.nextCall = some c) :
    ∃ (conn : Conn) (before : List Grant), grants = before ++ (cfg.accepted input).toList ∧
      conn.access = inForce before ∧ conn.Permits cfg input c := by
  cases phase with
  | waiting conn => cases hcall
  | ending conn rest => cases hinput
  | busy conn input' rest =>
      cases hinput
      cases rest with
      | done out => cases hcall
      | call c' next =>
          cases hcall
          obtain ⟨before, hbefore, -, haccess, hrest⟩ := hphase
          exact ⟨conn, before, hbefore, haccess, hrest.1⟩

/-- The next call after the loop. -/
theorem Mediated.permitsAtEnd (hphase : phase.Mediated cfg grants) (hinput : phase.input? = none)
    (hcall : phase.nextCall = some c) :
    ∃ conn : Conn, conn.Holds grants ∧ conn.PermitsAtEnd c := by
  cases phase with
  | waiting conn => cases hcall
  | busy conn input rest => cases hinput
  | ending conn rest =>
      cases rest with
      | done out => cases hcall
      | call c' next =>
          cases hcall
          exact ⟨conn, hphase.1, hphase.2.1⟩

/-- A PUBLISH in hand is routed under the permissions in force. -/
theorem Mediated.publish {input : Input} {topic : String} {payload : Bytes} {qos : QoS}
    {retain : Bool} (hphase : phase.Mediated cfg grants) (hinput : phase.input? = some input)
    (hcall : phase.nextCall = some (.publish topic payload qos retain)) :
    (inForce grants).canPublish topic = true ∧ Text.startsWith "$replay/" topic = false ∧
      ∃ p, input = .packet (.publish p) ∧ p.topic = topic := by
  obtain ⟨conn, before, hbefore, haccess, -, hallowed, hstrip, p, rfl, hp⟩ :=
    hphase.permits hinput hcall
  -- the PUBLISH in hand brings nothing into force
  obtain rfl : grants = before := hbefore.trans (List.append_nil before)
  refine ⟨haccess ▸ hallowed, ?_, p, rfl, hp⟩
  rw [← Bool.not_eq_true]
  intro hstarts
  simp [Text.strip, hstarts] at hstrip

theorem Mediated.will {topic : String} {payload : Bytes} {qos : QoS} {retain : Bool}
    (hphase : phase.Mediated cfg grants) (hinput : phase.input? = none)
    (hcall : phase.nextCall = some (.publish topic payload qos retain)) :
    ∃ grant, grants.getLast? = some grant ∧ grant.will = some ⟨topic, payload, qos, retain⟩ := by
  obtain ⟨conn, hholds, hwill⟩ := hphase.permitsAtEnd hinput hcall
  have hregistered : conn.will = some ⟨topic, payload, qos, retain⟩ := hwill
  rw [hholds.will] at hregistered
  exact Option.bind_eq_some_iff.mp hregistered

theorem Mediated.subscribe {raw : String} {filter : TopicFilter}
    (hphase : phase.Mediated cfg grants) (hcall : phase.nextCall = some c)
    (hinstalls : c.installs = some (raw, filter)) :
    (inForce grants).canSubscribe (effectiveFilter raw) = true ∧
      filter.asStr = effectiveFilter raw := by
  cases hinput : phase.input? with
  | none =>
      obtain ⟨conn, -, hpermits⟩ := hphase.permitsAtEnd hinput hcall
      cases c <;> cases hinstalls <;> cases hpermits
  | some input =>
      obtain ⟨conn, before, hbefore, haccess, hpermits⟩ := hphase.permits hinput hcall
      have hsubscribes : ∃ id, conn.Subscribes input id raw filter := by
        cases c <;> cases hinstalls <;> exact ⟨_, hpermits⟩
      obtain ⟨id, -, hallowed, hsame, packetId, filters, rfl, -⟩ := hsubscribes
      obtain rfl : grants = before := hbefore.trans (List.append_nil before)
      exact ⟨hsame ▸ haccess ▸ hallowed, hsame.symm⟩

end Phase

namespace Live

/-- Mediation holds in every state of every run in which no accepted CONNECT
registers a Will in the replay namespace: a PUBLISH there is a replay request, but
a Will is published under whatever topic the permissions allow. -/
theorem mediation (cfg : HandlerConfig) (hub : Hub) (peer : String) (steps : List LiveStep)
    (l : Live) (hrun : Machine.run (step cfg) (start hub peer) steps = some l)
    (hwills : ∀ grant ∈ grants cfg steps, ∀ w ∈ grant.will,
      Text.startsWith "$replay/" w.topic = false) :
    l.Mediation cfg (grants cfg steps) := by
  have hl := mediated_run (mediated_start cfg hub peer) hrun
  rw [List.nil_append] at hl
  constructor
  case untouched =>
    intro hnone r l' hstep
    exact untouched_of_mediated (hnone ▸ hl) hstep
  case publish =>
    intro input topic payload qos retain hinput hcall
    obtain ⟨hallowed, -, hp⟩ := hl.publish hinput hcall
    exact ⟨hallowed, hp⟩
  case will =>
    intro topic payload qos retain hinput hcall
    obtain ⟨grant, hlast, hgrant⟩ := hl.will hinput hcall
    obtain ⟨a, -, ha⟩ := List.mem_filterMap.mp (List.mem_of_getLast? hlast)
    cases a with
    | receive input =>
        have hallowed := HandlerConfig.canPublish_of_accepted ha hgrant
        exact ⟨grant, hlast, hgrant, hallowed⟩
    | own r => cases ha
    | env a => cases ha
  case subscribe =>
    intro c raw filter hcall hinstalls
    exact hl.subscribe hcall hinstalls
  case reserved =>
    intro topic payload qos retain hcall
    cases hinput : l.phase.input? with
    | some input => exact (hl.publish hinput hcall).2.1
    | none =>
        obtain ⟨grant, hlast, hgrant⟩ := hl.will hinput hcall
        exact hwills grant (List.mem_of_getLast? hlast) ⟨topic, payload, qos, retain⟩ hgrant

def openConfig (acl : Acl) : HandlerConfig := ⟨fun _ => some acl, 10⟩

def connectAndDrop (will : Message) : List LiveStep :=
  let r : Reading := ⟨⟨0, 0⟩, 0, true⟩
  [.receive (.packet (.connect ⟨"c", true, 0, some will⟩ none)), .own r, .own r, .receive .ended]

/-- A Will outside the namespace is about to be published. -/
theorem mediation_will :
    let cfg := openConfig ⟨["up/#"], []⟩
    let steps := connectAndDrop ⟨"up/c", [], .atMostOnce, false⟩
    ∃ l, Machine.run (step cfg) (start (Hub.new none ⟨5, 5, 60⟩ 0 0) "p") steps = some l ∧
      l.phase.nextCall = some (.publish "up/c" [] .atMostOnce false) ∧
      l.Mediation cfg (grants cfg steps) :=
  ⟨_, rfl, rfl, mediation _ (Hub.new none ⟨5, 5, 60⟩ 0 0) "p" _ _ rfl (by decide)⟩

/-- A Will in the replay namespace is published like any other. -/
theorem mediation_lost_by_will :
    let cfg := openConfig ⟨["$replay/#"], []⟩
    let steps := connectAndDrop ⟨"$replay/0/#", [], .atMostOnce, false⟩
    ∃ l, Machine.run (step cfg) (start (Hub.new none ⟨5, 5, 60⟩ 0 0) "p") steps = some l ∧
      ¬ l.Mediation cfg (grants cfg steps) := by
  refine ⟨_, rfl, fun hmediation => ?_⟩
  have hreserved := hmediation.reserved "$replay/0/#" [] .atMostOnce false rfl
  exact absurd hreserved (by decide)

end Live

end Relay
