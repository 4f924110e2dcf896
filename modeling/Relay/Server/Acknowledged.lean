import Relay.Server.Fanout
import Relay.Server.Mediation
import Relay.Server.Queues

/-! # Acknowledged publishes and the store

A publish queues its writes and the handler acknowledges it at once; the worker
performs the writes in its own time. At the acknowledgement they are on disk
exactly if the worker has had as many rounds since the publish as there were
writes in its queue. A flush, as the handler performs before it answers a PINGREQ
or a replay request, would make it wait for that.
-/

namespace Relay

/-! ## The worker's rounds -/

def Section.isWork : Section → Bool
  | .work => true
  | _ => false

def rounds (sections : List Section) : Nat := sections.countP Section.isWork

namespace Hub

/-- The writes that the worker performs in the course of some sections. -/
def performed (h : Hub) : List Section → List PersistOp
  | [] => []
  | a :: rest =>
      (if a.isWork then (h.disk.bind fun d => d.queue.head?).toList else []) ++
        match h.act a with
        | some h' => h'.performed rest
        | none => []

/-- A round performs the first write of the queue. -/
theorem performed_work {h h₁ : Hub} {d : Disk} {op : PersistOp} {ops : List PersistOp}
    (hact : h.act .work = some h₁) (hd : h.disk = some d) (hqueue : d.queue = op :: ops)
    (rest : List Section) : h.performed (.work :: rest) = op :: h₁.performed rest := by
  simp [performed, hact, Section.isWork, hd, hqueue]

theorem performed_other {h h₁ : Hub} {a : Section} (hact : h.act a = some h₁)
    (hwork : a.isWork = false) (rest : List Section) :
    h.performed (a :: rest) = h₁.performed rest := by
  simp [performed, hact, hwork]

/-- The worker performs one write per round, in the order of the queue, and the
store is what these writes make of it. -/
theorem performed_of_run {h h' : Hub} {d : Disk} {sections : List Section}
    (hrun : Machine.run act h sections = some h') (hd : h.disk = some d) :
    ∃ later d', h'.disk = some d' ∧ d.queue ++ later = h.performed sections ++ d'.queue ∧
      d'.storage = (h.performed sections).foldl Storage.applyPersistOp d.storage ∧
      (h.performed sections).length = rounds sections := by
  induction sections generalizing h d with
  | nil =>
      cases hrun
      exact ⟨[], d, hd, by simp [performed], rfl, rfl⟩
  | cons a rest ih =>
      obtain ⟨h₁, hact, hrest⟩ := Machine.run_cons_eq_some.mp hrun
      cases hwork : a.isWork with
      | true =>
          -- the round takes the first write off the queue
          cases a with
          | work =>
              obtain ⟨d₀, d₁, hd₀, hd₁, heq⟩ := exists_of_work hact
              rw [hd] at hd₀
              cases hd₀
              obtain ⟨later, d', hd', hqueue, hstorage, hlength⟩ := ih hrest (by rw [heq])
              unfold Disk.work at hd₁
              split at hd₁
              · cases hd₁
              next op ops hops =>
                cases hd₁
                rw [performed_work hact hd hops]
                refine ⟨later, d', hd', ?_, hstorage, ?_⟩
                · rw [hops, List.cons_append, List.cons_append, hqueue]
                · rw [List.length_cons, hlength, rounds, rounds, List.countP_cons_of_pos hwork]
          | _ => cases hwork
      | false =>
          have hqueues : QueuesAll (fun _ => True) h h₁ := by
            refine queuesAll_act (fun _ _ _ => trivial) (fun _ => trivial) ?_ (fun _ _ => trivial) hact
            rintro rfl
            cases hwork
          obtain ⟨ops, hops, -⟩ := hqueues
          have hd₁ := hops.disk
          rw [hd, Option.map_some] at hd₁
          obtain ⟨later, d', hd', hqueue, hstorage, hlength⟩ := ih hrest hd₁
          rw [performed_other hact hwork]
          refine ⟨ops ++ later, d', hd', ?_, hstorage, ?_⟩
          · rw [← hqueue, List.append_assoc]
          · rw [hlength, rounds, rounds, List.countP_cons_of_neg (Bool.not_eq_true _ ▸ hwork)]

/-! ## What a publish queues -/

/-- A routed PUBLISH is journalled exactly when there is a log and its topic is not below
`$`. -/
theorem Queues.journal {h h' : Hub} {ops : List PersistOp} (hqueues : Queues h ops h')
    (topic : String) (payload : Bytes) (qos : QoS) (ts : Nat) :
    Queues h (ops ++ if 0 < h.eventLogMax ∧ ¬ Text.startsWithChar '$' topic then
      [.appendEvent (encodeEvent ts topic qos payload) h.eventLogMax] else [])
      (h'.journal topic payload qos ts) := by
  unfold Hub.journal
  rw [hqueues.eventLogMax]
  split
  · exact hqueues.enqueue _
  · rwa [List.append_nil]

theorem Queues.writeAll {h h' : Hub} {ops : List PersistOp} (hqueues : Queues h ops h')
    (snapshots : List (String × Bytes)) :
    Queues h (ops ++ snapshots.map fun s => .putInflight s.1 s.2) (h'.writeAll snapshots) := by
  induction snapshots generalizing h' ops with
  | nil => simpa [Hub.writeAll] using hqueues
  | cons snapshot rest ih =>
      have hrest := ih (hqueues.enqueue (.putInflight snapshot.1 snapshot.2))
      rwa [List.append_assoc] at hrest

/-- The row of a retained message, the event, and the snapshots. -/
theorem queues_publish {h h' : Hub} {topic : String} {payload : Bytes} {msgQos : QoS}
    {retain : Bool} {clock : Clock} {n : Nat}
    (hpublish : h.publish topic payload msgQos retain clock = some (n, h')) :
    ∃ snapshots : List (String × Bytes), Queues h
      ((if retain then [.putRetained topic payload msgQos] else []) ++
        (if 0 < h.eventLogMax ∧ ¬ Text.startsWithChar '$' topic then
          [.appendEvent (encodeEvent clock.ts topic msgQos payload) h.eventLogMax] else []) ++
        snapshots.map fun s => .putInflight s.1 s.2) h' := by
  have hretain : Queues h (if retain then [.putRetained topic payload msgQos] else [])
      (if retain then h.retain topic payload msgQos else h) := by
    split
    · refine (queues_nil ?_ ?_).enqueue _ <;> rfl
    · exact queues_nil rfl rfl
  have hannounce := hretain.journal topic payload msgQos clock.ts
  rw [Hub.publish, fanOut_eq] at hpublish
  obtain ⟨f, hf, heq⟩ := Option.map_eq_some_iff.mp hpublish
  cases heq
  obtain ⟨hdisk, hmax⟩ := disk_deliverAll hf
  have hdelivered : Queues h _ f.hub := hannounce.trans (queues_nil hdisk hmax)
  refine ⟨f.toPersist, ?_⟩
  have hwritten := hdelivered.writeAll f.toPersist
  rwa [List.append_nil] at hwritten

end Hub

/-! ## The acknowledgement follows the publish -/

def successAck (qos : QoS) (pid : Nat) : Reply :=
  if qos = .exactlyOnce then .publishReceived pid .success else .publishAck pid .success

namespace Conn

/-- If the handler of a PUBLISH is about to route it, its next call acknowledges
it, at QoS 1 and 2. -/
def AcksNext (conn : Conn) (p : Publish) (rest : Handler (Flow × Conn)) : Prop :=
  ∀ topic payload qos retain next, rest = .call (.publish topic payload qos retain) next →
    topic = p.topic ∧ (p.qos ≠ .atMostOnce → ∃ pid, p.packetId = some pid ∧
      ∀ n, next n = conn.reply (successAck p.qos pid))

def RoutesNothing : Call → Prop
  | .publish _ _ _ _ => False
  | _ => True

/-- Where nothing is routed there is nothing to acknowledge. -/
theorem acksNext_of_routesNothing {conn : Conn} {p : Publish} {rest : Handler (Flow × Conn)}
    (hrest : rest.Meets RoutesNothing fun _ => True) : rest.Throughout (conn.AcksNext p) := by
  refine hrest.throughout ?_ ?_
  · intro c next hc topic payload qos retain next' heq
    cases heq
    exact hc.elim
  · intro out _ topic payload qos retain next heq
    cases heq

theorem acksNext_reply (conn : Conn) (p : Publish) (r : Reply) :
    (conn.reply r).Throughout (conn.AcksNext p) :=
  acksNext_of_routesNothing (meets_reply trivial fun _ => trivial)

theorem routesNothing_onReplay (conn : Conn) (id : ClientId) (p : Publish) (rest : String) :
    (conn.onReplay id p rest).Meets RoutesNothing fun _ => True := by
  have hack : (conn.acknowledge p .success).Meets RoutesNothing fun _ => True :=
    meets_acknowledge (fun _ => trivial) (fun _ => trivial) fun _ => trivial
  unfold onReplay
  cases parseReplay rest with
  | none => exact hack
  | some request =>
      dsimp only
      split
      · refine (meets_flush trivial fun _ => trivial).bind fun _ _ => ?_
        exact ⟨trivial, fun _ => hack⟩
      · exact hack

theorem acksNext_publishCall {conn : Conn} {p : Publish} {next : Nat → Handler (Flow × Conn)}
    (hnext : p.qos ≠ .atMostOnce → ∃ pid, p.packetId = some pid ∧
      ∀ n, next n = conn.reply (successAck p.qos pid)) :
    conn.AcksNext p (.call (publishCall p) next) := by
  intro topic payload qos retain next' heq
  cases heq
  exact ⟨rfl, hnext⟩

/-- Each of the branches by level acknowledges right after it has routed. -/
theorem acksNext_onAuthorized (conn : Conn) (id : ClientId) (p : Publish) :
    (conn.onAuthorized id p).Throughout (conn.AcksNext p) := by
  have hdone : ∀ out : Flow × Conn,
      (pure out : Handler (Flow × Conn)).Throughout (conn.AcksNext p) :=
    fun out => acksNext_of_routesNothing trivial
  unfold onAuthorized
  split
  next hqos =>
    exact ⟨acksNext_publishCall fun hne => absurd hqos hne, fun _ => hdone _⟩
  next hqos =>
    split
    · exact hdone _
    next pid hpid =>
      refine ⟨acksNext_publishCall fun _ => ⟨pid, hpid, fun n => ?_⟩,
        fun _ => conn.acksNext_reply p _⟩
      rw [hqos]
      rfl
  next hqos =>
    split
    · exact hdone _
    next pid hpid =>
      refine ⟨?_, fun fresh => ?_⟩
      · intro topic payload qos retain next heq
        cases heq
      · cases fresh with
        | false => exact conn.acksNext_reply p _
        | true =>
            refine ⟨acksNext_publishCall fun _ => ⟨pid, hpid, fun n => ?_⟩,
              fun _ => conn.acksNext_reply p _⟩
            rw [hqos]
            rfl

/-- However a PUBLISH is handled, no call comes between routing and acknowledging it. -/
theorem acksNext_onPublish (conn : Conn) (p : Publish) :
    (conn.onPublish p).Throughout (conn.AcksNext p) := by
  have hdone : ∀ out : Flow × Conn,
      (pure out : Handler (Flow × Conn)).Throughout (conn.AcksNext p) :=
    fun out => acksNext_of_routesNothing trivial
  unfold onPublish
  cases conn.sessionId with
  | none => exact hdone _
  | some id =>
      dsimp only
      split
      next rest _ => exact acksNext_of_routesNothing (conn.routesNothing_onReplay id p rest)
      next =>
        split
        · exact conn.acksNext_onAuthorized id p
        · exact acksNext_of_routesNothing
            (meets_acknowledge (fun _ => trivial) (fun _ => trivial) fun _ => trivial)

end Conn

namespace Phase

def AcksNext : Phase → Prop
  | .busy conn input rest => ∀ p, input = .packet (.publish p) → rest.Throughout (conn.AcksNext p)
  | _ => True

theorem acksNext_settle {conn : Conn} {input : Input} {rest : Handler (Flow × Conn)}
    (hrest : ∀ p, input = .packet (.publish p) → rest.Throughout (conn.AcksNext p)) :
    (settle conn input rest).AcksNext := by
  cases rest with
  | call c next => exact hrest
  | done out =>
      obtain ⟨flow, conn'⟩ := out
      cases flow <;> trivial

/-- The handler enters an input with the property and keeps it call by call. -/
theorem acksNext_step {cfg : HandlerConfig} {l l' : Live} (hphase : l.phase.AcksNext)
    {a : LiveStep} (hstep : l.step cfg a = some l') : l'.phase.AcksNext := by
  obtain ⟨hub, phase⟩ := l
  cases a with
  | receive input =>
      cases phase with
      | waiting conn =>
          simp only [Live.step] at hstep
          split at hstep
          · cases hstep
            refine acksNext_settle ?_
            rintro p rfl
            exact conn.acksNext_onPublish p
          · cases hstep
      | busy conn input rest => cases hstep
      | ending conn rest => cases hstep
  | own r =>
      cases phase with
      | waiting conn => cases hstep
      | busy conn input rest =>
          cases rest with
          | done out => cases hstep
          | call c next =>
              obtain ⟨out, -, rfl⟩ := Option.map_eq_some_iff.mp hstep
              exact acksNext_settle fun p hp => (hphase p hp).2 out.1
      | ending conn rest =>
          cases rest with
          | done out => cases hstep
          | call c next =>
              obtain ⟨out, -, rfl⟩ := Option.map_eq_some_iff.mp hstep
              trivial
  | env a =>
      obtain ⟨h', -, rfl⟩ := Option.map_eq_some_iff.mp hstep
      exact hphase

end Phase

namespace Live

/-- Sections of the environment leave the handler where it is. -/
theorem run_env {cfg : HandlerConfig} {l l' : Live} {sections : List Section}
    (hrun : Machine.run (step cfg) l (sections.map .env) = some l') :
    l'.phase = l.phase ∧ Machine.run Hub.act l.hub sections = some l'.hub := by
  induction sections generalizing l with
  | nil =>
      cases hrun
      exact ⟨rfl, rfl⟩
  | cons a rest ih =>
      rw [List.map_cons] at hrun
      obtain ⟨l₁, hstep, hrest⟩ := Machine.run_cons_eq_some.mp hrun
      obtain ⟨h₁, hact, rfl⟩ := Option.map_eq_some_iff.mp hstep
      obtain ⟨hphase, hhub⟩ := ih hrest
      exact ⟨hphase, Machine.run_cons_eq_some.mpr ⟨h₁, hact, hhub⟩⟩

/-- Every write that was queued between the two hubs has been performed in the
course of the sections that follow. -/
def Durable (h h₁ : Hub) (between : List Section) : Prop :=
  ∀ d ∈ h.disk, ∀ d₁ ∈ h₁.disk, ∀ i op, d₁.queue[d.queue.length + i]? = some op →
    (h₁.performed between)[d.queue.length + i]? = some op

/-- The worker takes the writes off the queue in order, so the last one of a
publish decides. -/
theorem durable_iff_rounds {h h₁ h₂ : Hub} {d : Disk} (hd : h.disk = some d)
    {ops : List PersistOp} (hqueues : h.Queues ops h₁) (hops : ops ≠ []) {between : List Section}
    (hbetween : Machine.run Hub.act h₁ between = some h₂) :
    Durable h h₁ between ↔ ∀ d₁ ∈ h₁.disk, d₁.queue.length ≤ rounds between := by
  have hd₁ := hqueues.disk
  rw [hd, Option.map_some] at hd₁
  obtain ⟨later, d₂, -, hqueue, -, hlength⟩ := Hub.performed_of_run hbetween hd₁
  constructor
  · intro hdurable d₁ hmem
    rw [hd₁] at hmem
    cases hmem
    obtain ⟨op, hlast⟩ : ∃ op, ops[ops.length - 1]? = some op :=
      ⟨ops.getLast hops, by rw [← List.getLast?_eq_getElem?, List.getLast?_eq_some_getLast hops]⟩
    have hpos := List.length_pos_iff.mpr hops
    have hdone := hdurable d hd _ hd₁ (ops.length - 1) op (by
      rw [List.getElem?_append_right (Nat.le_add_right _ _), Nat.add_sub_cancel_left]
      exact hlast)
    have hbound := (List.getElem?_eq_some_iff.mp hdone).1
    rw [hlength] at hbound
    rw [List.length_append]
    omega
  · intro hrounds d' hd' d₁ hmem i op hop
    have henough := hrounds d₁ hmem
    rw [hd₁] at hmem
    cases hmem
    rw [hd] at hd'
    cases hd'
    have hlt := (List.getElem?_eq_some_iff.mp hop).1
    have hdone : (h₁.performed between ++ d₂.queue)[d.queue.length + i]? =
        (h₁.performed between)[d.queue.length + i]? := List.getElem?_append_left (by omega)
    rw [← hdone, ← hqueue, List.getElem?_append_left hlt]
    exact hop

/-- In every run of a handler, among everything else in the broker: a PUBLISH of
QoS 1 or 2 that the handler routes is acknowledged by its next call, and then the
writes of the publish have been performed exactly if the worker has had as many
rounds since as there were writes in its queue. -/
theorem durable_iff (cfg : HandlerConfig) (hub : Hub) (peer : String) (steps : List LiveStep)
    (between : List Section) {l l₁ l₂ : Live} (hrun : Machine.run (step cfg) (start hub peer) steps = some l)
    {p : Publish} (hinput : l.phase.input? = some (.packet (.publish p)))
    {topic : String} {payload : Bytes} {qos : QoS} {retain : Bool}
    (hcall : l.phase.nextCall = some (.publish topic payload qos retain))
    (hqos : p.qos ≠ .atMostOnce) (hdisk : l.hub.disk.isSome) (hmax : 0 < l.hub.eventLogMax)
    (hplain : Text.startsWithChar '$' p.topic = false) {r : Reading}
    (hpublish : l.step cfg (.own r) = some l₁)
    (hbetween : Machine.run (step cfg) l₁ (between.map .env) = some l₂) :
    (∃ pid, p.packetId = some pid ∧ l₂.phase.nextCall = some (.send (successAck p.qos pid))) ∧
      (Durable l.hub l₁.hub between ↔ ∀ d ∈ l₁.hub.disk, d.queue.length ≤ rounds between) := by
  have hphase : l.phase.AcksNext := Machine.run_invariant
    (fun _ _ _ hphase hstep => Phase.acksNext_step hphase hstep)
    (show (start hub peer).phase.AcksNext from trivial) hrun
  obtain ⟨h, phase⟩ := l
  cases phase with
  | waiting conn => cases hinput
  | ending conn rest => cases hinput
  | busy conn input rest =>
      cases hinput
      cases rest with
      | done out => cases hcall
      | call c next =>
          cases hcall
          obtain ⟨htopic, hack⟩ := (hphase p rfl).now topic payload qos retain next rfl
          obtain ⟨pid, hpid, hnext⟩ := hack hqos
          obtain ⟨out, hperform, rfl⟩ := Option.map_eq_some_iff.mp hpublish
          obtain ⟨hphase₂, hhub⟩ := run_env hbetween
          refine ⟨⟨pid, hpid, ?_⟩, ?_⟩
          · rw [hphase₂, hnext]
            rfl
          · obtain ⟨d, hd⟩ := Option.isSome_iff_exists.mp hdisk
            obtain ⟨snapshots, hqueues⟩ := Hub.queues_publish hperform
            refine durable_iff_rounds hd hqueues ?_ hhub
            rw [htopic, hplain]
            simp [hmax]

/-- A durable client that is connected and publishes at QoS 1; the handler is about
to route the message. -/
def connectAndPublish : List LiveStep :=
  let r : Reading := ⟨⟨0, 0⟩, 0, true⟩
  [.receive (.packet (.connect ⟨"c", true, 60, none⟩ none)), .own r, .own r,
    .receive (.packet (.publish (makePublish "t" [7] .atLeastOnce (some 1) false false)))]

def journalling : Live := start (Hub.new (some Storage.empty) ⟨5, 5, 60⟩ 10 0) "p"

/-- The worker has its two rounds before the acknowledgement. -/
theorem durable_iff_drained :
    let cfg := openConfig ⟨["#"], []⟩
    let r : Reading := ⟨⟨0, 0⟩, 0, true⟩
    ∃ l l₁ l₂, Machine.run (step cfg) journalling connectAndPublish = some l ∧
      l.step cfg (.own r) = some l₁ ∧ Machine.run (step cfg) l₁ [.env .work, .env .work] = some l₂ ∧
      l₂.phase.nextCall = some (.send (.publishAck 1 .success)) ∧
      Durable l.hub l₁.hub [.work, .work] := by
  refine ⟨_, _, _, rfl, rfl, rfl, rfl, ?_⟩
  refine (durable_iff (openConfig ⟨["#"], []⟩) (Hub.new (some Storage.empty) ⟨5, 5, 60⟩ 10 0) "p"
    connectAndPublish [.work, .work] rfl rfl rfl (by decide) rfl (by decide) (by decide) rfl
    rfl).2.mpr ?_
  rintro d ⟨⟩
  decide

/-- The worker has had no round when the publish is acknowledged. -/
theorem durable_lost_by_acknowledging :
    let cfg := openConfig ⟨["#"], []⟩
    let r : Reading := ⟨⟨0, 0⟩, 0, true⟩
    ∃ l l₁, Machine.run (step cfg) journalling connectAndPublish = some l ∧
      l.step cfg (.own r) = some l₁ ∧
      l₁.phase.nextCall = some (.send (.publishAck 1 .success)) ∧ ¬ Durable l.hub l₁.hub [] := by
  refine ⟨_, _, rfl, rfl, rfl, fun hdurable => ?_⟩
  exact absurd (hdurable _ rfl _ rfl 0 _ rfl) (by decide)

end Live

end Relay
