import Relay.Server.RetainedLaw
import Relay.Server.Routines
import Relay.Server.Subscriptions

/-! # A new subscriber catches up

A retained publish and a SUBSCRIBE that meet. The publisher stores the message before it
resolves the recipients; the handler of the subscriber installs all its filters before it
reads the stored messages. So either the subscriber is among the recipients, or it reads the
message or a newer one: however the two are interleaved with each other and with the rest of
the broker, the subscriber is handed the message or a newer one, unless the topic was cleared
in between. It may be handed an older one after that, since the stored messages are read
before they are delivered.
-/

namespace Relay

/-! ## The two parties and the others -/

inductive Who where
  | publisher
  | subscriber
  | other
deriving DecidableEq

abbrev Answered := (a : Act) × a.Result

/-- The hub, what the two parties still have to do, and all that was done so far. -/
structure Meeting where
  hub : Hub
  publisher : Routine Nat
  subscriber : Routine (Flow × Conn)
  made : List (Who × Answered)

inductive MeetingStep where
  | publisher (r : Reading)
  | subscriber (r : Reading)
  | other (a : Act) (r : Reading)

def Hub.holds (key : SubscriptionKey) (h : Hub) : Bool := (h.router.granted key).isSome

namespace Meeting

def note (b : Meeting) (who : Who) (a : Act) (out : a.Result × Hub) : Meeting :=
  { b with hub := out.2, made := b.made ++ [(who, ⟨a, out.1⟩)] }

def move (b : Meeting) : MeetingStep → Option Meeting
  | .publisher r =>
      match b.publisher with
      | .call a next =>
          (b.hub.attend r a).map fun out =>
            { b.note .publisher a out with publisher := next out.1 }
      | .done _ => none
  | .subscriber r =>
      match b.subscriber with
      | .call a next =>
          (b.hub.attend r a).map fun out =>
            { b.note .subscriber a out with subscriber := next out.1 }
      | .done _ => none
  | .other a r => (b.hub.attend r a).map (b.note .other a)

/-- One act of one of them, as long as nobody withdraws the subscription. -/
def step (key : SubscriptionKey) (b : Meeting) (st : MeetingStep) : Option Meeting :=
  (b.move st).filter fun b' => !b.hub.holds key || b'.hub.holds key

end Meeting

def actsOf (who : Who) (made : List (Who × Answered)) : List Answered :=
  made.filterMap fun e => if e.1 = who then some e.2 else none

theorem mem_actsOf {who : Who} {made : List (Who × Answered)} {x : Answered} :
    x ∈ actsOf who made ↔ (who, x) ∈ made := by
  simp only [actsOf, List.mem_filterMap, Option.ite_none_right_eq_some, Option.some.injEq]
  constructor
  · rintro ⟨e, he, rfl, rfl⟩
    exact he
  · intro hmem
    exact ⟨_, hmem, rfl, rfl⟩

theorem actsOf_concat (who by' : Who) (made : List (Who × Answered)) (x : Answered) :
    actsOf who (made ++ [(by', x)]) = actsOf who made ++ if by' = who then [x] else [] := by
  rw [actsOf, List.filterMap_append]
  congr 1
  by_cases hwho : by' = who
  · simp [hwho]
  · simp [hwho]

/-! ## What the parties do -/

section Publisher

variable {topic : String} {payload : Bytes} {qos : QoS} {acts : List Answered}

/-- The message is stored before anything else. -/
theorem retain_mem_of_publish {rest : Routine Nat}
    (hleads : (Routine.publish topic payload qos true).Leads acts rest) (hbegun : acts ≠ []) :
    (⟨.enter (.retain ⟨topic, payload, qos, true⟩), ()⟩ : Answered) ∈ acts := by
  cases hleads with
  | refl => exact absurd rfl hbegun
  | step r hrest => exact List.mem_cons_self

/-- The recipients were resolved, and if there are any, they were served. -/
theorem route_mem_of_publish {retain : Bool} {n : Nat}
    (hleads : (Routine.publish topic payload qos retain).Leads acts (.done n)) :
    ∃ targets, (⟨.enter (.route topic), targets⟩ : Answered) ∈ acts ∧
      (targets = [] ∨ ∃ now out,
        (⟨.enter (.deliver targets topic payload qos now), out⟩ : Answered) ∈ acts) := by
  obtain ⟨_, front, back, rfl, -, hfanOut⟩ := Program.Leads.of_bind_done hleads
  obtain ⟨targets, later, rfl, hrest⟩ := Program.Leads.of_perform_bind hfanOut
  refine ⟨targets, List.mem_append_right _ List.mem_cons_self, ?_⟩
  split at hrest
  next hnone => exact Or.inl hnone
  next =>
    obtain ⟨clock, later, rfl, hdeliver⟩ := Program.Leads.of_perform_bind hrest
    obtain ⟨out, later, rfl, -⟩ := Program.Leads.of_perform_bind hdeliver
    exact Or.inr ⟨clock.now, out, by simp⟩

end Publisher

section Subscriber

variable {cfg : HandlerConfig} {conn : Conn} {packetId : Nat} {filters : List (String × QoS)}
  {id : ClientId} {acts : List Answered} {f : TopicFilter} {g : QoS}

/-- The filters that a SUBSCRIBE is granted, apart from shared ones. -/
def Conn.grantedJobs (cfg : HandlerConfig) (conn : Conn) (filters : List (String × QoS)) :
    List (TopicFilter × QoS) :=
  (grantedAmong filters (conn.judgeAll cfg.limit filters)).filterMap retainedJob

/-- A filter whose retained messages are looked up is installed first. -/
theorem exists_installCall_of_job {granted : List (String × QoS)}
    (hjob : (f, g) ∈ granted.filterMap retainedJob) (id : ClientId) :
    ∃ raw, Call.subscribe id f g raw ∈ granted.filterMap (installCall id) := by
  obtain ⟨⟨raw, q⟩, hgranted, hjob⟩ := List.mem_filterMap.mp hjob
  obtain ⟨sub, hsub, hjob⟩ := Option.bind_eq_some_iff.mp hjob
  refine ⟨raw, List.mem_filterMap.mpr ⟨(raw, q), hgranted, ?_⟩⟩
  obtain ⟨group, filter⟩ := sub
  cases group with
  | some group => cases hjob
  | none =>
      cases hjob
      rw [installCall, hsub, Option.map_some]

def Act.looks : Act → Bool
  | .matching _ => true
  | _ => false

/-- Installing filters does not look at retained messages. -/
theorem meets_install {granted : List (String × QoS)} {c : Call}
    (hc : c ∈ granted.filterMap (installCall id)) :
    c.routine.Meets (fun a => a.looks = false) fun _ => True := by
  obtain ⟨filter, -, hcall⟩ := List.mem_filterMap.mp hc
  obtain ⟨sub, -, rfl⟩ := Option.map_eq_some_iff.mp hcall
  have hdurable : ∀ op : String → PersistOp,
      (Routine.ifDurable id op).Meets (fun a => a.looks = false) fun _ => True := by
    intro op
    refine ⟨rfl, fun client => ?_⟩
    cases client with
    | none => trivial
    | some clientId => exact ⟨rfl, fun _ => trivial⟩
  obtain ⟨group, filter⟩ := sub
  cases group with
  | none => exact ⟨rfl, fun _ => hdurable _⟩
  | some group => exact ⟨rfl, fun _ => hdurable _⟩

/-- First the filters are installed, then the packet is acknowledged, then the stored
messages are delivered. -/
theorem Conn.onSubscribe_eq (cfg : HandlerConfig) (packetId : Nat) (filters : List (String × QoS))
    (hid : conn.sessionId = some id) :
    ∃ after, conn.onSubscribe cfg packetId filters =
      Program.each ((grantedAmong filters (conn.judgeAll cfg.limit filters)).filterMap
        (installCall id)) >>= fun _ =>
      call (.send (.subscribeAck packetId (conn.judgeAll cfg.limit filters))) >>=
        fun written : Bool =>
          if written then
            Program.each ((conn.grantedJobs cfg filters).map fun job =>
              Call.deliverRetained id job.1 job.2) >>= fun _ => pure (.next, after)
          else pure (.leave false, after) := by
  refine ⟨{ conn with
    activeFilters := conn.activeAfter filters (conn.judgeAll cfg.limit filters) filters.length }, ?_⟩
  simp only [Conn.onSubscribe, hid, Conn.onFilters_eq, bind_assoc, pure_bind,
    Conn.deliverJobs_eq]
  rfl

/-- Before the first look at the stored messages every granted filter is installed. -/
theorem subscribe_mem_of_looks (hid : conn.sessionId = some id)
    (hjob : (f, g) ∈ conn.grantedJobs cfg filters) {rest : Routine (Flow × Conn)}
    (hleads : ((conn.onSubscribe cfg packetId filters).expand Call.routine).Leads acts rest)
    {x : Answered} (hx : x ∈ acts) (hlooks : x.1.looks = true) :
    (⟨.enter (.subscribe id f g), ()⟩ : Answered) ∈ acts := by
  obtain ⟨after, heq⟩ := Conn.onSubscribe_eq cfg packetId filters hid
  rw [heq, Program.expand_bind] at hleads
  rcases hleads.of_bind with ⟨rest', hinstall, -⟩ | ⟨_, front, back, rfl, hinstall, -⟩
  · -- the installing has no looks
    have hnone := hinstall.forall_allowed (Program.meets_expand_each fun c hc => meets_install hc)
      x hx
    rw [hlooks] at hnone
    cases hnone
  · obtain ⟨raw, hcall⟩ := exists_installCall_of_job hjob id
    obtain ⟨_, before, mine, later, rfl, hmine⟩ := Program.Leads.of_expand_each hinstall hcall
    obtain ⟨_, more, rfl, -⟩ := Program.Leads.of_perform_bind hmine
    simp

/-- Once the packet is acknowledged and dealt with, the stored messages of every granted
filter were read, and if there are any, they were delivered. -/
theorem matching_mem_of_subscribe (hid : conn.sessionId = some id)
    (hjob : (f, g) ∈ conn.grantedJobs cfg filters) {conn' : Conn}
    (hleads : ((conn.onSubscribe cfg packetId filters).expand Call.routine).Leads acts
      (.done (.next, conn'))) :
    ∃ messages, (⟨.matching f, messages⟩ : Answered) ∈ acts ∧
      (messages = [] ∨ ∃ now out,
        (⟨.enter (.replayRetained id messages g now), out⟩ : Answered) ∈ acts) := by
  obtain ⟨after, heq⟩ := Conn.onSubscribe_eq cfg packetId filters hid
  rw [heq, Program.expand_bind] at hleads
  obtain ⟨_, front, back, rfl, -, hrest⟩ := hleads.of_bind_done
  cases hrest with
  | step written hjobs =>
  cases written with
  | false => cases hjobs
  | true =>
      have hjobs : ((Program.each ((conn.grantedJobs cfg filters).map fun job =>
          Call.deliverRetained id job.1 job.2) >>= fun _ => pure (Flow.next, after)).expand
            Call.routine).Leads _ (.done (.next, conn')) := hjobs
      rw [Program.expand_bind] at hjobs
      obtain ⟨_, delivered, last, rfl, hdelivered, -⟩ := hjobs.of_bind_done
      obtain ⟨_, before, mine, later, rfl, hmine⟩ :=
        Program.Leads.of_expand_each hdelivered (List.mem_map_of_mem hjob)
      obtain ⟨messages, more, rfl, hdeliver⟩ := Program.Leads.of_perform_bind hmine
      refine ⟨messages, by simp, ?_⟩
      split at hdeliver
      next hnone => exact Or.inl hnone
      next =>
        obtain ⟨clock, more, rfl, hreplay⟩ := Program.Leads.of_perform_bind hdeliver
        obtain ⟨out, more, rfl, -⟩ := Program.Leads.of_perform_bind hreplay
        exact Or.inr ⟨clock.now, out, by simp⟩

end Subscriber

/-! ## What an act does to the hub -/

namespace Hub

variable {h h' : Hub} {r : Reading}

theorem act_of_attend {sec : Section} {out : sec.Result}
    (hattend : h.attend r (.enter sec) = some (out, h')) : h.act sec = some h' := by
  rw [act_eq_enter]
  exact congrArg (Option.map Prod.snd) hattend

/-- A look leaves the hub as it is, except that a flush is queued. -/
theorem retained_attend {a : Act} {out : a.Result} (hattend : h.attend r a = some (out, h'))
    (hretain : ∀ m, a ≠ .enter (.retain m)) : h'.retained = h.retained := by
  cases a with
  | enter sec =>
      have hact := act_of_attend hattend
      by_cases hretains : sec.retains = true
      · cases sec with
        | retain m => exact absurd rfl (hretain m)
        | enqueue op =>
            cases hact
            rfl
        | _ => cases hretains
      · exact retained_act (Bool.eq_false_iff.mpr hretains) hact
  | flush =>
      rw [attend, perform] at hattend
      split at hattend
      · cases hattend
        rfl
      · cases hattend
        rfl
  | acknowledged ack =>
      rw [attend, perform] at hattend
      split at hattend
      · cases hattend
        rfl
      · cases hattend
  | _ =>
      cases hattend
      rfl

end Hub

/-- A client that holds a matching filter is a recipient. -/
theorem Router.exists_mem_route {r : Router} {id : ClientId} {f : TopicFilter} {topic : String}
    (hheld : r.granted ⟨id, none, f.asStr⟩ ≠ none) (hmatch : f.matchesTopic topic = true) :
    ∃ q, (id, q) ∈ (r.route topic).1 := by
  obtain ⟨q, hq⟩ := Option.ne_none_iff_exists'.mp hheld
  obtain ⟨sub, hfind, -⟩ := Option.map_eq_some_iff.mp hq
  have hfound := List.find?_some hfind
  have hkey : subKey sub = f.asStr := of_decide_eq_true hfound
  have hsub : sub.qos ∈ ((r.subsOf id).filter fun s => s.filter.matchesTopic topic).map Sub.qos := by
    refine List.mem_map_of_mem (List.mem_filter.mpr ⟨List.mem_of_find?_eq_some hfind, ?_⟩)
    obtain ⟨⟨raw, accepted⟩, qos⟩ := sub
    obtain ⟨raw', accepted'⟩ := f
    obtain rfl : raw = raw' := hkey
    exact hmatch
  obtain ⟨top, htop⟩ : ∃ top, maxGranted (r.subsOf id) topic = some top := by
    refine Option.ne_none_iff_exists'.mp fun hnone => ?_
    rw [maxGranted, List.max?_eq_none_iff] at hnone
    rw [hnone] at hsub
    cases hsub
  refine ⟨top, ?_⟩
  have hmem : top ∈ r.grantedTo topic id := by
    rw [grantedTo, htop]
    exact List.mem_append_left _ (List.mem_singleton_self _)
  rw [← filter_route, List.mem_map] at hmem
  obtain ⟨target, htarget, rfl⟩ := hmem
  obtain ⟨hroute, hid⟩ := List.mem_filter.mp htarget
  rw [← of_decide_eq_true hid]
  exact hroute

/-! ## The two meet -/

namespace Meeting

section Run

variable (topic : String) (payload : Bytes) (qos : QoS)

/-- The message is the one of the publisher, or was stored after it. -/
def Since (m : Message) (made : List (Who × Answered)) : Prop :=
  ∃ before after,
    made = before ++ (.publisher, ⟨.enter (.retain ⟨topic, payload, qos, true⟩), ()⟩) :: after ∧
      (m = ⟨topic, payload, qos, true⟩ ∨ ∃ who, (who, ⟨.enter (.retain m), ()⟩) ∈ after)

variable {topic payload qos}

/-- What was stored since stays so. -/
theorem Since.concat {m : Message} {made : List (Who × Answered)}
    (hsince : Since topic payload qos m made) (e : Who × Answered) :
    Since topic payload qos m (made ++ [e]) := by
  obtain ⟨before, after, rfl, hm⟩ := hsince
  refine ⟨before, after ++ [e], by simp, hm.imp_right ?_⟩
  rintro ⟨who, hmem⟩
  exact ⟨who, List.mem_append_left _ hmem⟩

variable {cfg : HandlerConfig} {conn : Conn} {packetId : Nat} {filters : List (String × QoS)}
  {id : ClientId} {f : TopicFilter} {g : QoS} {b b' : Meeting} {who : Who} {a : Act} {r : Reading}
  {out : a.Result × Hub}

variable (topic payload qos cfg conn packetId filters id f g) in
/-- Where the two are. -/
structure Inv (b : Meeting) : Prop where
  publisher : (Routine.publish topic payload qos true).Leads (actsOf .publisher b.made) b.publisher
  subscriber : ((conn.onSubscribe cfg packetId filters).expand Call.routine).Leads
    (actsOf .subscriber b.made) b.subscriber
  keyed : b.hub.retained.Keyed
  installed : (.subscriber, ⟨.enter (.subscribe id f g), ()⟩) ∈ b.made →
    b.hub.holds ⟨id, none, f.asStr⟩ = true
  /-- Once the publisher has begun, the topic has its message or a newer one. -/
  stored : actsOf .publisher b.made ≠ [] → ∃ m, Since topic payload qos m b.made ∧
    m.topic = topic ∧ b.hub.retained.byTopic.lookup topic = if m.payload = [] then none else some m
  met : ∀ targets messages, (.publisher, ⟨.enter (.route topic), targets⟩) ∈ b.made →
    (.subscriber, ⟨.matching f, messages⟩) ∈ b.made → (∃ q, (id, q) ∈ targets) ∨
      ∃ m, Since topic payload qos m b.made ∧ m.topic = topic ∧ (m.payload = [] ∨ m ∈ messages)

theorem keyed_attend (hkeyed : b.hub.retained.Keyed) (hattend : b.hub.attend r a = some out) :
    out.2.retained.Keyed := by
  by_cases hretain : ∃ m, a = .enter (.retain m)
  · obtain ⟨m, rfl⟩ := hretain
    cases hattend
    intro t m' hm'
    rw [RetainedStore.lookup_apply, Message.replaces] at hm'
    split at hm'
    next htopic =>
      split at hm'
      · cases hm'
      · cases hm'
        exact htopic
    next => exact hkeyed t m' hm'
  · rw [Hub.retained_attend hattend (not_exists.mp hretain)]
    exact hkeyed

/-- The first act of the publisher stores its message. -/
theorem first_of_publish (hnone : actsOf .publisher b.made = []) {rest : Routine Nat}
    (hrest : (Routine.publish topic payload qos true).Leads
      (actsOf .publisher (b.made ++ [(who, ⟨a, out.1⟩)])) rest)
    (hbegun : actsOf .publisher (b.made ++ [(who, ⟨a, out.1⟩)]) ≠ []) :
    who = .publisher ∧
      (⟨a, out.1⟩ : Answered) = ⟨.enter (.retain ⟨topic, payload, qos, true⟩), ()⟩ := by
  have hmem := retain_mem_of_publish hrest hbegun
  rw [actsOf_concat, hnone, List.nil_append] at hmem
  split at hmem
  next hwho => exact ⟨hwho, (List.mem_singleton.mp hmem).symm⟩
  next => cases hmem

/-- Once the publisher has stored its message, the topic holds it or one stored later. -/
theorem Inv.stored_note (hb : b.Inv topic payload qos cfg conn packetId filters id f g)
    (hattend : b.hub.attend r a = some out) {rest : Routine Nat}
    (hrest : (Routine.publish topic payload qos true).Leads
      (actsOf .publisher (b.made ++ [(who, ⟨a, out.1⟩)])) rest)
    (hbegun : actsOf .publisher (b.made ++ [(who, ⟨a, out.1⟩)]) ≠ []) :
    ∃ m, Since topic payload qos m (b.made ++ [(who, ⟨a, out.1⟩)]) ∧ m.topic = topic ∧
      out.2.retained.byTopic.lookup topic = if m.payload = [] then none else some m := by
  have hlookup : ∀ m : Message, m.topic = topic → (b.hub.retained.apply m).byTopic.lookup topic =
      if m.payload = [] then none else some m := by
    intro m htopic
    rw [RetainedStore.lookup_apply, Message.replaces, if_pos htopic]
    rfl
  by_cases hnone : actsOf .publisher b.made = []
  · obtain ⟨rfl, heq⟩ := first_of_publish hnone hrest hbegun
    obtain ⟨rfl, hout⟩ := Sigma.mk.inj_iff.mp heq
    refine ⟨⟨topic, payload, qos, true⟩, ⟨b.made, [], rfl, Or.inl rfl⟩, rfl, ?_⟩
    cases hattend
    exact hlookup ⟨topic, payload, qos, true⟩ rfl
  · obtain ⟨m, hsince, htopic, hheld⟩ := hb.stored hnone
    by_cases hretain : ∃ m', a = .enter (.retain m') ∧ m'.topic = topic
    · -- somebody stores a newer message
      obtain ⟨m', rfl, htopic'⟩ := hretain
      cases hattend
      refine ⟨m', ?_, htopic', hlookup m' htopic'⟩
      obtain ⟨before, after, hmade, -⟩ := hsince
      refine ⟨before, after ++ [(who, ⟨.enter (.retain m'), ()⟩)], by simp [hmade], Or.inr ⟨who, ?_⟩⟩
      exact List.mem_append_right _ (List.mem_singleton_self _)
    · refine ⟨m, hsince.concat _, htopic, ?_⟩
      rw [← hheld]
      by_cases hother : ∃ m', a = .enter (.retain m')
      · obtain ⟨m', rfl⟩ := hother
        have hne : m'.topic ≠ topic := fun htopic' => hretain ⟨m', rfl, htopic'⟩
        cases hattend
        exact (RetainedStore.lookup_apply ..).trans (if_neg hne)
      · rw [Hub.retained_attend hattend (not_exists.mp hother)]

/-- The later of routing and looking finds the other's trace: this is where the two orders
meet. -/
theorem Inv.met_note (hb : b.Inv topic payload qos cfg conn packetId filters id f g)
    (hid : conn.sessionId = some id) (hjob : (f, g) ∈ conn.grantedJobs cfg filters)
    (hmatch : f.matchesTopic topic = true) (hattend : b.hub.attend r a = some out)
    {targets : List (ClientId × QoS)} {messages : List Message}
    (hroute : (.publisher, ⟨.enter (.route topic), targets⟩) ∈ b.made ++ [(who, ⟨a, out.1⟩)])
    (hlook : (.subscriber, ⟨.matching f, messages⟩) ∈ b.made ++ [(who, ⟨a, out.1⟩)]) :
    (∃ q, (id, q) ∈ targets) ∨ ∃ m, Since topic payload qos m (b.made ++ [(who, ⟨a, out.1⟩)]) ∧
      m.topic = topic ∧ (m.payload = [] ∨ m ∈ messages) := by
  rw [List.mem_append, List.mem_singleton] at hroute hlook
  rcases hroute with hroute | hroute
  · rcases hlook with hlook | hlook
    · refine (hb.met targets messages hroute hlook).imp_right ?_
      rintro ⟨m, hsince, hm⟩
      exact ⟨m, hsince.concat _, hm⟩
    · -- the look comes last, and the message has been stored
      cases hlook
      cases hattend
      obtain ⟨m, hsince, htopic, hheld⟩ := hb.stored (List.ne_nil_of_mem (mem_actsOf.mpr hroute))
      refine Or.inr ⟨m, hsince.concat _, htopic, ?_⟩
      by_cases hempty : m.payload = []
      · exact Or.inl hempty
      · rw [if_neg hempty] at hheld
        refine Or.inr ((RetainedStore.mem_matching_iff hb.keyed f m).mpr ⟨?_, ?_⟩)
        · rw [htopic]
          exact hmatch
        · rw [htopic]
          exact hheld
  · rcases hlook with hlook | hlook
    · -- the recipients are resolved last, and the filter has been installed
      cases hroute
      cases hattend
      have hinstalled := hb.installed (mem_actsOf.mp (subscribe_mem_of_looks hid hjob hb.subscriber
        (mem_actsOf.mpr hlook) rfl))
      exact Or.inl (Router.exists_mem_route (Option.ne_none_iff_isSome.mpr hinstalled) hmatch)
    · cases hroute.trans hlook.symm

/-- An act of anybody keeps the invariant, if the two parties go on with their answers. -/
theorem Inv.note (hb : b.Inv topic payload qos cfg conn packetId filters id f g)
    (hid : conn.sessionId = some id) (hjob : (f, g) ∈ conn.grantedJobs cfg filters)
    (hmatch : f.matchesTopic topic = true) (hattend : b.hub.attend r a = some out)
    (hkeeps : b.hub.holds ⟨id, none, f.asStr⟩ = true → out.2.holds ⟨id, none, f.asStr⟩ = true)
    {publisher : Routine Nat} {subscriber : Routine (Flow × Conn)}
    (hpublisher : (Routine.publish topic payload qos true).Leads
      (actsOf .publisher (b.made ++ [(who, ⟨a, out.1⟩)])) publisher)
    (hsubscriber : ((conn.onSubscribe cfg packetId filters).expand Call.routine).Leads
      (actsOf .subscriber (b.made ++ [(who, ⟨a, out.1⟩)])) subscriber) :
    Inv topic payload qos cfg conn packetId filters id f g
      ⟨out.2, publisher, subscriber, b.made ++ [(who, ⟨a, out.1⟩)]⟩ where
  publisher := hpublisher
  subscriber := hsubscriber
  keyed := keyed_attend hb.keyed hattend
  installed hmem := by
    rcases List.mem_append.mp hmem with hold | hnew
    · exact hkeeps (hb.installed hold)
    · cases List.mem_singleton.mp hnew
      cases hattend
      simp [Hub.holds, Router.granted_subscribe]
  stored := hb.stored_note hattend hpublisher
  met targets messages := hb.met_note hid hjob hmatch hattend

/-- Either party acts; the facts about what it has done so far are those of the lemmas
above. -/
theorem Inv.step (hb : b.Inv topic payload qos cfg conn packetId filters id f g)
    (hid : conn.sessionId = some id) (hjob : (f, g) ∈ conn.grantedJobs cfg filters)
    (hmatch : f.matchesTopic topic = true) {st : MeetingStep}
    (hstep : Meeting.step ⟨id, none, f.asStr⟩ b st = some b') :
    b'.Inv topic payload qos cfg conn packetId filters id f g := by
  obtain ⟨hmove, hguard⟩ := Option.filter_eq_some_iff.mp hstep
  have hkeeps : b.hub.holds ⟨id, none, f.asStr⟩ = true →
      b'.hub.holds ⟨id, none, f.asStr⟩ = true := by
    intro hheld
    simpa [hheld] using hguard
  cases st with
  | publisher r =>
      rw [move] at hmove
      split at hmove
      next a next hnext =>
        obtain ⟨out, hattend, rfl⟩ := Option.map_eq_some_iff.mp hmove
        refine hb.note hid hjob hmatch hattend hkeeps ?_ ?_
        · rw [actsOf_concat, if_pos rfl]
          exact (hnext ▸ hb.publisher).concat out.1
        · rw [actsOf_concat, if_neg (by decide), List.append_nil]
          exact hb.subscriber
      next => cases hmove
  | subscriber r =>
      rw [move] at hmove
      split at hmove
      next a next hnext =>
        obtain ⟨out, hattend, rfl⟩ := Option.map_eq_some_iff.mp hmove
        refine hb.note hid hjob hmatch hattend hkeeps ?_ ?_
        · rw [actsOf_concat, if_neg (by decide), List.append_nil]
          exact hb.publisher
        · rw [actsOf_concat, if_pos rfl]
          exact (hnext ▸ hb.subscriber).concat out.1
      next => cases hmove
  | other a r =>
      obtain ⟨out, hattend, rfl⟩ := Option.map_eq_some_iff.mp hmove
      refine hb.note hid hjob hmatch hattend hkeeps ?_ ?_
      · rw [actsOf_concat, if_neg (by decide), List.append_nil]
        exact hb.publisher
      · rw [actsOf_concat, if_neg (by decide), List.append_nil]
        exact hb.subscriber

end Run

/-- A retained publish and a SUBSCRIBE, run to their ends among any other acts: the message
is delivered to the subscriber, or the stored messages delivered to it have this message or
a newer one of the topic, unless a newer one has cleared it. (An empty payload clears the
topic itself, and then nothing is claimed.) Which of the two reaches the subscriber's channel
first is not said. -/
theorem subscriber_catches_up (topic : String) (payload : Bytes) (qos : QoS) (cfg : HandlerConfig)
    (conn : Conn) (packetId : Nat) (filters : List (String × QoS)) {id : ClientId}
    (hid : conn.sessionId = some id) {f : TopicFilter} {g : QoS}
    (hjob : (f, g) ∈ conn.grantedJobs cfg filters) (hmatch : f.matchesTopic topic = true) {h : Hub}
    (hkeyed : h.retained.Keyed) (steps : List MeetingStep) {b : Meeting}
    (hrun : Machine.run (step ⟨id, none, f.asStr⟩)
      ⟨h, Routine.publish topic payload qos true,
        (conn.onSubscribe cfg packetId filters).expand Call.routine, []⟩ steps = some b)
    {n : Nat} (hpublished : b.publisher = .done n) {conn' : Conn}
    (hsubscribed : b.subscriber = .done (.next, conn')) :
    (∃ targets now q out, (id, q) ∈ targets ∧
        (.publisher, ⟨.enter (.deliver targets topic payload qos now), out⟩) ∈ b.made) ∨
      ∃ m, Since topic payload qos m b.made ∧ m.topic = topic ∧ (m.payload = [] ∨
        ∃ messages now out, m ∈ messages ∧
          (.subscriber, ⟨.enter (.replayRetained id messages g now), out⟩) ∈ b.made) := by
  have hinv : b.Inv topic payload qos cfg conn packetId filters id f g := by
    refine Machine.run_invariant (fun b st b' hb hstep => hb.step hid hjob hmatch hstep) ?_ hrun
    exact ⟨.refl _, .refl _, hkeyed, fun hmem => absurd hmem List.not_mem_nil,
      fun hbegun => absurd rfl hbegun, fun _ _ hmem => absurd hmem List.not_mem_nil⟩
  obtain ⟨targets, hroute, hserved⟩ := route_mem_of_publish (hpublished ▸ hinv.publisher)
  obtain ⟨messages, hlook, hdelivered⟩ :=
    matching_mem_of_subscribe hid hjob (hsubscribed ▸ hinv.subscriber)
  rcases hinv.met targets messages (mem_actsOf.mp hroute) (mem_actsOf.mp hlook) with
    ⟨q, hq⟩ | ⟨m, hsince, htopic, hm⟩
  · rcases hserved with rfl | ⟨now, out, hserved⟩
    · cases hq
    · exact Or.inl ⟨targets, now, q, out, hq, mem_actsOf.mp hserved⟩
  · refine Or.inr ⟨m, hsince, htopic, hm.imp_right fun hmem => ?_⟩
    rcases hdelivered with rfl | ⟨now, out, hdelivered⟩
    · cases hmem
    · exact ⟨messages, now, out, hmem, mem_actsOf.mp hdelivered⟩

def newcomer : Conn := { Conn.start "p" with sessionId := some 1, access := ⟨[], ["#"]⟩ }

/-- The publisher comes to its end before the filter is installed; another client clears a
topic that it has nothing to do with. -/
def tooLate : List MeetingStep :=
  let r : Reading := ⟨⟨0, 0⟩, 0, true⟩
  [.publisher r, .publisher r, .other (.enter (.retain ⟨"u", [], .atMostOnce, true⟩)) r,
    .publisher r, .publisher r, .subscriber r, .subscriber r, .subscriber r, .subscriber r,
    .subscriber r, .subscriber r]

theorem subscriber_catches_up_tooLate :
    ∃ b, Machine.run (step ⟨1, none, "t"⟩)
        ⟨Hub.new none ⟨5, 5, 60⟩ 0 0, Routine.publish "t" [7] .atLeastOnce true,
          (newcomer.onSubscribe ⟨fun _ => none, 10⟩ 3 [("t", .atLeastOnce)]).expand Call.routine,
          []⟩ tooLate = some b ∧
      ((∃ targets now q out, (1, q) ∈ targets ∧
          (.publisher, ⟨.enter (.deliver targets "t" [7] .atLeastOnce now), out⟩) ∈ b.made) ∨
        ∃ m, Since "t" [7] .atLeastOnce m b.made ∧ m.topic = "t" ∧ (m.payload = [] ∨
          ∃ messages now out, m ∈ messages ∧ (.subscriber,
            ⟨.enter (.replayRetained 1 messages .atLeastOnce now), out⟩) ∈ b.made)) := by
  have hkeyed : (Hub.new none ⟨5, 5, 60⟩ 0 0).retained.Keyed := by
    intro t m hm
    cases hm
  refine ⟨_, rfl, ?_⟩
  exact subscriber_catches_up "t" [7] .atLeastOnce ⟨fun _ => none, 10⟩ newcomer 3
    [("t", .atLeastOnce)] rfl (f := ⟨"t", by decide +kernel⟩) (by decide +kernel)
    (by decide +kernel) hkeyed tooLate rfl rfl rfl

end Meeting

end Relay
