import Relay.Server.Audit
import Relay.Server.DeadLetters

/-! # Dead-letter accounting

Over every interleaving of sections and dead letters: a message is given up at most once,
never after its first confirmation and never inside the dead-letter namespace; what is
given up is dead-lettered in order, once, with one record and one publish.
-/

namespace Relay

open Roster (Record)

variable {cfg : RetryConfig}

/-! ## One session -/

/-- The turn processes a confirmation of the message: a PUBACK with the identifier of its
QoS 1 PUBLISH, or the PUBREC that is taken for its QoS 2 PUBLISH. -/
inductive Turn.Confirms (t : Turn cfg) (r : Record InflightEntry Trace) : Prop where
  | puback (pid : Nat) (p : Publish) (e : InflightEntry) (handling : t.handling = .call (.onPuback pid))
      (before : r.before = some e) (state : e.state = .qos1 p) (packetId : p.packetId = some pid)
  | pubrec (pid : Nat) (p : Publish) (e e' : InflightEntry)
      (handling : t.handling = .call (.onPubrec pid)) (before : r.before = some e)
      (state : e.state = .qos2AwaitRec p) (packetId : p.packetId = some pid)
      (after : r.after = some e') (awaits : e'.state = .qos2AwaitComp pid)

/-- A message that is given up was in the queue without a confirmation, and leaves it. -/
structure Fallen (r : Record InflightEntry Trace) (msg : DeadMsg) (e : InflightEntry) : Prop where
  before : r.before = some e
  after : r.after = none
  undelivered : e.state.undelivered = some msg.publish
  outside : isDlqTopic msg.publish.topic = false

/-- What is given up was unconfirmed in the queue before and is gone after. -/
theorem Turn.Lawful.fallen {t : Turn cfg} (ht : t.Lawful) {r : Record InflightEntry Trace}
    (hr : r ∈ t.records) {msg : DeadMsg} (hdead : r.note.dead = some msg) : ∃ e, Fallen r msg e := by
  cases hbefore : r.before with
  | none =>
      have hbirth := ht.birth r hr hbefore
      generalize t.handling = hd, r.after = after, hnote : r.note = note at hbirth hdead
      cases hbirth
      cases hdead
  | some e =>
      have hmove := ht.move r hr e hbefore
      generalize t.handling = hd, hafter : r.after = after, hnote : r.note = note at hmove hdead
      cases hmove with
      | died now p _ hundelivered _ houtside =>
          cases hdead
          exact ⟨e, hbefore, hafter, hundelivered, houtside⟩
      | drained p hundelivered houtside =>
          cases hdead
          exact ⟨e, hbefore, hafter, hundelivered, houtside⟩
      | spared => cases hdead
      | resent => cases hdead
      | retried => cases hdead
      | acked => cases hdead
      | received => cases hdead
      | completed => cases hdead

namespace Watched

variable {s : Session} {w w' : Watched cfg}

theorem Account.run (hw : w.Account s) {handlings : List Handling}
    (hrun : Machine.run Watched.step w handlings = some w') : w'.Account s :=
  Machine.run_invariant (fun _ _ _ hw hstep => Account.step hw hstep) hw hrun

theorem kept_account : Kept fun s (w : Watched cfg) => w.Account s where
  start s _ := account_start s
  touched _ _ _ _ _ _ _ hw _ hrun := hw.run hrun

theorem mem_history {t : Turn cfg} (ht : t ∈ w.turns) {r : Record InflightEntry Trace}
    (hr : r ∈ t.records) : r ∈ w.history :=
  List.mem_flatMap.mpr ⟨t, ht, hr⟩

/-- A confirmation, once given, is not forgotten while the message is there. -/
theorem Account.confirmed_kept (hw : w.Account s) : ∀ r ∈ w.history, ∀ e, r.before = some e →
    e.state.undelivered = none → ∀ e', r.after = some e' → e'.state.undelivered = none := by
  intro r hr e hbefore hconfirmed e' hafter
  obtain ⟨t, ht, hr⟩ := List.mem_flatMap.mp hr
  have hmove := (hw.lawful t ht).move r hr e hbefore
  rw [hafter] at hmove
  generalize t.handling = hd, r.note = note at hmove
  cases hmove with
  | spared => exact hconfirmed
  | resent => exact hconfirmed
  | retried => exact hconfirmed
  | received => rfl

/-- No confirmation of a message that is given up is processed, before or after. -/
theorem Account.not_confirms (hw : w.Account s) {t t' : Turn cfg} (ht : t ∈ w.turns)
    {r r' : Record InflightEntry Trace} (hr : r ∈ t.records) {msg : DeadMsg}
    (hdead : r.note.dead = some msg) (ht' : t' ∈ w.turns) (hr' : r' ∈ t'.records)
    (hname : r'.name = r.name) : ¬ t'.Confirms r' := by
  obtain ⟨e, hfallen⟩ := (hw.lawful t ht).fallen hr hdead
  obtain ⟨hgone, honce⟩ := hw.follows.left_once (mem_history ht hr) hfallen.after
  rintro (⟨pid, p, e', hhandling, hbefore, hstate, hpid⟩ |
    ⟨pid, p, e', e'', hhandling, hbefore, hstate, hpid, hafter, hawaits⟩)
  · -- the PUBACK takes the message out of the queue, without a dead message
    have hmove := (hw.lawful t' ht').move r' hr' e' hbefore
    rw [hhandling] at hmove
    generalize hafter : r'.after = after, hnote : r'.note = note at hmove
    cases hmove with
    | spared hspares =>
        rw [Handling.Spares, hstate, Inflight.ackedBy, hpid] at hspares
        simp at hspares
    | acked =>
        have heq := honce r' (mem_history ht' hr') hname hafter
        rw [heq] at hnote
        rw [hnote] at hdead
        cases hdead
  · -- the PUBREC leaves it in the queue without the PUBLISH, and it would have died so
    have hconfirmed : e''.state.undelivered = none := by
      rw [hawaits]
      rfl
    rcases hw.follows.settled (Q := fun e => e.state.undelivered = none) hw.confirmed_kept
      (mem_history ht' hr') hafter hconfirmed with ⟨b, hlive, -⟩ | ⟨r'', hr'', hname'', hleft, b, hb, hQ⟩
    · rw [hname, hgone] at hlive
      cases hlive
    · rw [honce r'' hr'' (hname''.trans hname) hleft, hfallen.before] at hb
      cases hb
      rw [hfallen.undelivered] at hQ
      cases hQ

end Watched

/-! ## At most once -/

namespace Audit

variable {a a' : Audit cfg}

def fallen (a : Audit cfg) : List (ClientId × Nat) :=
  a.tasks.flatMap fun task => task.dead.map Casualty.key

/-- One handling gives a message up at most once. -/
theorem nodup_deaths (hd : Handling) (id : ClientId) (s : Session) :
    ((a.deaths hd id s).map Casualty.key).Nodup := by
  unfold deaths
  cases hw : a.watched id with
  | none => exact List.nodup_nil
  | some w =>
      have hnames : ((w.records hd).map fun r => (id, r.name)).Nodup := by
        have hnodup := (w.roster.nodup_name_records (w.fate hd) (hd.born cfg w.session)).map
          (Prod.mk_right_injective id)
        rwa [List.map_map] at hnodup
      refine hnames.sublist ?_
      simp only [List.map_filterMap, Option.map_map]
      generalize w.records hd = records
      induction records with
      | nil => exact List.Sublist.refl _
      | cons r rest ih =>
          cases hdead : r.note.dead with
          | none => simpa [List.filterMap_cons, hdead] using ih.cons _
          | some msg => simpa [List.filterMap_cons, hdead, Casualty.key] using ih

/-- One section gives a message up at most once, over all sessions. -/
theorem nodup_casualties (sec : Section) : ((a.casualties sec).map Casualty.key).Nodup := by
  cases sec with
  | tick now =>
      rw [casualties, List.map_flatMap, List.nodup_flatMap]
      constructor
      · intro x _
        split
        · exact List.nodup_nil
        · exact nodup_deaths _ _ _
      · -- different sessions have different handles
        refine (List.nodupKeys_iff_pairwise.mp a.hub.sessions.byId.nodupKeys).imp ?_
        intro x y hne key hx hy
        have hid : ∀ z : Sigma fun _ : ClientId => Session, key ∈
            (if z.2.tx = none then [] else a.deaths (.call (.tickRetries now)) z.1 z.2).map
              Casualty.key → key.1 = z.1 := by
          intro z hz
          split at hz
          · cases hz
          · obtain ⟨c, hc, rfl⟩ := List.mem_map.mp hz
            obtain ⟨w, -, r, -, msg, -, rfl⟩ := mem_deaths_iff.mp hc
            rfl
        exact hne ((hid x hx).symm.trans (hid y hy))
  | expire id generation =>
      rw [casualties]
      split
      · split
        · exact nodup_deaths _ _ _
        · exact List.nodup_nil
      · exact List.nodup_nil
  | _ => exact List.nodup_nil

/-- What a section gives up was not given up before. -/
theorem not_mem_fallen {h₀ : Hub} (haccount : a.Each (fun s w => w.Account s) h₀)
    (hfiled : ∀ task ∈ a.tasks, a.Filed task) {sec : Section} {c : Casualty}
    (hc : c ∈ a.casualties sec) : c.key ∉ a.fallen := by
  intro hold
  obtain ⟨task, htask, hmem⟩ := List.mem_flatMap.mp hold
  obtain ⟨c₀, hc₀, hkey⟩ := List.mem_map.mp hmem
  obtain ⟨hid, hname⟩ := Prod.mk.inj hkey
  -- the message has left the queue of its session
  obtain ⟨-, hd₀, -, hgave⟩ := hfiled task htask
  obtain ⟨w, hw, t, ht, -, r, hr, hr₀, hdead⟩ := hgave c₀ hc₀
  obtain ⟨s, -, hs⟩ := haccount.each c₀.id w hw
  obtain ⟨e, hfallen⟩ := (hs.lawful t ht).fallen hr hdead
  have hgone := (hs.follows.left_once (Watched.mem_history ht hr) hfallen.after).1
  -- and is in the queue
  obtain ⟨s', reason, hd, -, -, -, hdeath⟩ := mem_casualties_iff.mp hc
  obtain ⟨w', hw', r', hr', msg, hmsg, hcasualty⟩ := mem_deaths_iff.mp hdeath
  rw [← hid, hw] at hw'
  cases hw'
  cases hbefore : r'.before with
  | none =>
      have hbirth := Watched.birth_of_record hr' hbefore
      generalize r'.after = after, r'.note = note at hbirth hmsg
      cases hbirth
      cases hmsg
  | some e' =>
      have hlive := w.roster.status_of_mem (Watched.mem_items_of_record hr' hbefore).1
      have hsame : r'.name = r.name := by rw [hr₀, hname, hcasualty]
      rw [hsame, hgone] at hlive
      cases hlive

/-! ## Dead letters -/

end Audit

namespace Hub

variable {h h' : Hub}

/-- A publish queues events, retained rows and snapshots only. -/
theorem queuesAll_publish {P : PersistOp → Prop}
    (hretained : ∀ topic payload qos, P (.putRetained topic payload qos))
    (hevent : ∀ blob retention, P (.appendEvent blob retention))
    (hsnapshot : ∀ client blob, P (.putInflight client blob)) {topic : String} {payload : Bytes}
    {msgQos : QoS} {retain : Bool} {clock : Clock} {n : Nat}
    (hpublish : h.publish topic payload msgQos retain clock = some (n, h')) : QueuesAll P h h' := by
  have hannounce : QueuesAll P h (h.announce topic payload msgQos retain clock.ts) :=
    queuesAll_announce (fun _ => hretained _ _ _) hevent _
  rw [publish, fanOut_eq] at hpublish
  obtain ⟨f, hf, heq⟩ := Option.map_eq_some_iff.mp hpublish
  cases heq
  obtain ⟨hdisk, hmax⟩ := disk_deliverAll hf
  exact (hannounce.trans_same hdisk hmax).writeAll fun _ _ => hsnapshot _ _

end Hub

/-- A dead letter: one record of the message is queued, and one publish is made of it,
which queues no record itself. -/
structure Letter.Sent (l : Letter) : Prop where
  published : ∃ n, (l.before.enqueue (.recordOf l.reason l.clock.ts
      (l.casualty.client, l.casualty.msg))).publish
    (Hub.dlqTopic l.casualty.client l.casualty.msg.publish.topic) l.casualty.msg.publish.payload
    l.casualty.msg.publish.qos false l.clock = some (n, l.after)
  recorded : ∃ ops, Hub.Queues l.before
      (.recordOf l.reason l.clock.ts (l.casualty.client, l.casualty.msg) :: ops) l.after ∧
    ∀ op ∈ ops, op.deadLetter? = none

/-- A dead letter outside the dead-letter namespace does what `Sent` lists. -/
theorem Letter.sent_of_deadLetter {l : Letter}
    (houtside : isDlqTopic l.casualty.msg.publish.topic = false)
    (hletter : l.before.deadLetter l.casualty.client l.casualty.msg l.reason l.clock =
      some l.after) : l.Sent := by
  rw [Hub.deadLetter, houtside, if_neg Bool.false_ne_true] at hletter
  obtain ⟨⟨n, h'⟩, hpublish, rfl⟩ := Option.map_eq_some_iff.mp hletter
  refine ⟨⟨n, hpublish⟩, ?_⟩
  obtain ⟨ops, hops, hnone⟩ := Hub.queuesAll_publish
    (P := fun op => op.deadLetter? = none) (fun _ _ _ => rfl) (fun _ _ => rfl) (fun _ _ => rfl) hpublish
  exact ⟨ops, ((Hub.queues_nil rfl rfl).enqueue _).trans hops, hnone⟩

namespace Audit

variable {a a' : Audit cfg}

/-- The messages given up are different, and those of a task are dead-lettered one after
the other. -/
structure Posted (a : Audit cfg) : Prop where
  once : a.fallen.Nodup
  order : ∀ k task, a.tasks[k]? = some task →
    (a.letters.filter (·.task = k)).map Letter.casualty = task.dead.take task.done
  known : ∀ l ∈ a.letters, l.task < a.tasks.length
  different : (a.letters.map fun l => l.casualty.key).Nodup
  sent : ∀ l ∈ a.letters, l.Sent

/-- A letter is about a message that its task has done. -/
theorem Posted.exists_task (ha : a.Posted) {l : Letter} (hl : l ∈ a.letters) :
    ∃ task, a.tasks[l.task]? = some task ∧ l.casualty ∈ task.dead.take task.done := by
  have hlt := ha.known l hl
  refine ⟨a.tasks[l.task], List.getElem?_eq_getElem hlt, ?_⟩
  rw [← ha.order l.task _ (List.getElem?_eq_getElem hlt)]
  exact List.mem_map_of_mem (List.mem_filter.mpr ⟨hl, decide_eq_true rfl⟩)

/-- The next message of a task has no letter yet. -/
theorem Posted.not_mem (ha : a.Posted) {k : Nat} {task : Task} (hthere : a.tasks[k]? = some task)
    {c : Casualty} (hnext : task.dead[task.done]? = some c) :
    c.key ∉ a.letters.map fun l => l.casualty.key := by
  intro hmem
  obtain ⟨l, hl, hkey⟩ := List.mem_map.mp hmem
  obtain ⟨task', htask', hdone⟩ := ha.exists_task hl
  obtain ⟨heach, hdisjoint⟩ := List.nodup_flatMap.mp ha.once
  rw [List.pairwise_iff_getElem] at hdisjoint
  have hc : c.key ∈ task.dead.map Casualty.key := List.mem_map_of_mem (List.mem_of_getElem? hnext)
  have hc' : c.key ∈ task'.dead.map Casualty.key :=
    hkey ▸ List.mem_map_of_mem (List.mem_of_mem_take hdone)
  obtain ⟨hlt, rfl⟩ := List.getElem?_eq_some_iff.mp hthere
  obtain ⟨hlt', rfl⟩ := List.getElem?_eq_some_iff.mp htask'
  rcases Nat.lt_trichotomy l.task k with hbefore | rfl | hafter
  · exact hdisjoint l.task k hlt' hlt hbefore hc' hc
  · -- in the same task the letter is about an earlier message
    have hnodup := heach _ (List.mem_of_getElem? hthere)
    rw [← List.take_append_drop (a.tasks[l.task]).done (a.tasks[l.task]).dead, List.map_append,
      List.nodup_append] at hnodup
    refine hnodup.2.2 _ (List.mem_map_of_mem hdone) _ (List.mem_map_of_mem ?_) hkey
    exact List.mem_of_getElem? (i := 0) (by rw [List.getElem?_drop, Nat.add_zero, hnext])
  · exact hdisjoint k l.task hlt hlt' hafter hc hc'

/-- A section opens a task with messages that no earlier task has: their watches had not
given them up. -/
theorem Posted.act (ha : a.Posted) {h₀ : Hub} (haccount : a.Each (fun s w => w.Account s) h₀)
    (hfiled : ∀ task ∈ a.tasks, a.Filed task) {sec : Section}
    (htasks : a'.tasks = a.tasks ++ a.opened sec) (hletters : a'.letters = a.letters) :
    a'.Posted where
  once := by
    rw [fallen, htasks, List.flatMap_append, List.nodup_append]
    have hopened : ∀ key ∈ (a.opened sec).flatMap (fun task => task.dead.map Casualty.key),
        ∃ c ∈ a.casualties sec, c.key = key := by
      intro key hkey
      obtain ⟨task, htask, hmem⟩ := List.mem_flatMap.mp hkey
      obtain ⟨reason, hd, -, rfl⟩ := mem_opened_iff.mp htask
      exact List.mem_map.mp hmem
    refine ⟨ha.once, ?_, ?_⟩
    · unfold opened
      cases sec.lethal with
      | none => exact List.nodup_nil
      | some x => simpa using nodup_casualties sec
    · intro key hold key' hnew heq
      obtain ⟨c, hc, rfl⟩ := hopened key' hnew
      exact not_mem_fallen haccount hfiled hc (heq ▸ hold)
  order k task htask := by
    rw [htasks, List.getElem?_append] at htask
    rw [hletters]
    split at htask
    · exact ha.order k task htask
    next hk =>
      obtain ⟨reason, hd, -, rfl⟩ := mem_opened_iff.mp (List.mem_of_getElem? htask)
      have hnone : a.letters.filter (·.task = k) = [] := by
        rw [List.filter_eq_nil_iff]
        intro l hl htask
        exact hk (of_decide_eq_true htask ▸ ha.known l hl)
      rw [hnone]
      rfl
  known l hl := by
    rw [hletters] at hl
    rw [htasks, List.length_append]
    exact (ha.known l hl).trans_le (Nat.le_add_right _ _)
  different := hletters ▸ ha.different
  sent := hletters ▸ ha.sent

theorem Posted.letter (ha : a.Posted) {k : Nat} {task : Task} (hthere : a.tasks[k]? = some task)
    {c : Casualty} (hnext : task.dead[task.done]? = some c) {l : Letter} (htask : l.task = k)
    (hcasualty : l.casualty = c) (hsent : l.Sent)
    (htasks : a'.tasks = a.tasks.set k { task with done := task.done + 1 })
    (hletters : a'.letters = a.letters ++ [l]) : a'.Posted := by
  have hlt := (List.getElem?_eq_some_iff.mp hthere).1
  refine ⟨?_, ?_, ?_, ?_, ?_⟩
  · -- the messages of the task are the same
    have hsame : a'.tasks.map (fun task => task.dead.map Casualty.key) =
        a.tasks.map fun task => task.dead.map Casualty.key := by
      rw [htasks, List.map_set]
      refine List.ext_getElem? fun i => ?_
      rw [List.getElem?_set, List.length_map]
      split
      next hi =>
        rw [← hi, List.getElem?_map, hthere]
        rfl
      next => rfl
    rw [fallen, List.flatMap_def, hsame, ← List.flatMap_def]
    exact ha.once
  · intro i task' htask'
    rw [htasks, List.getElem?_set] at htask'
    rw [hletters, List.filter_append, List.map_append]
    split at htask'
    next hi =>
      subst hi
      cases htask'
      rw [ha.order k task hthere, List.take_add_one, hnext, List.filter_cons_of_pos (by simp [htask])]
      simp [hcasualty]
    next hi =>
      rw [ha.order i task' htask', List.filter_cons_of_neg (by simp [htask, hi])]
      simp
  · intro l' hl'
    rw [htasks, List.length_set]
    rw [hletters] at hl'
    rcases List.mem_append.mp hl' with hold | hnew
    · exact ha.known l' hold
    · rw [List.mem_singleton.mp hnew, htask]
      exact hlt
  · rw [hletters, List.map_append, List.nodup_append_comm, List.map_singleton,
      List.singleton_append, List.nodup_cons, hcasualty]
    exact ⟨ha.not_mem hthere hnext, ha.different⟩
  · rw [hletters]
    intro l' hl'
    rcases List.mem_append.mp hl' with hold | hnew
    · exact ha.sent l' hold
    · rw [List.mem_singleton.mp hnew]
      exact hsent

/-- What was given up was never confirmed, and is no dead letter itself. -/
theorem Each.of_gave {h₀ : Hub} (haccount : a.Each (fun s w => w.Account s) h₀) {hd : Handling}
    {c : Casualty} (hgave : a.Gave hd c) :
    isDlqTopic c.msg.publish.topic = false ∧ ∀ w, a.watched c.id = some w →
      ∀ t ∈ w.turns, ∀ r ∈ t.records, r.name = c.name → ¬ t.Confirms r := by
  obtain ⟨w, hw, t, ht, -, r, hr, hname, hdead⟩ := hgave
  obtain ⟨s, -, hs⟩ := haccount.each c.id w hw
  obtain ⟨e, hfallen⟩ := (hs.lawful t ht).fallen hr hdead
  refine ⟨hfallen.outside, fun w' hw' t' ht' r' hr' hname' => ?_⟩
  obtain rfl := Option.some.inj (hw.symm.trans hw')
  exact hs.not_confirms ht hr hdead ht' hr' (hname'.trans hname.symm)

/-- The two kinds of steps, a section and a dead letter. -/
theorem Posted.step (ha : a.Posted) {h₀ : Hub} (haccount : a.Each (fun s w => w.Account s) h₀)
    (hfiled : ∀ task ∈ a.tasks, a.Filed task) (hstep : Stepped a a') : a'.Posted := by
  cases hstep with
  | act sec _ _ htasks hletters => exact ha.act haccount hfiled htasks hletters
  | letter k task c clock hthere hnext hsent _ htasks hletters =>
      obtain ⟨-, hd, -, hgave⟩ := hfiled task (List.mem_of_getElem? hthere)
      have houtside := (haccount.of_gave (hgave c (List.mem_of_getElem? hnext))).1
      let l : Letter := ⟨k, c, task.reason, clock, a.hub, a'.hub⟩
      have hl : l.Sent := Letter.sent_of_deadLetter houtside hsent
      exact ha.letter (l := l) hthere hnext rfl rfl hl htasks hletters

structure Accounted (a : Audit cfg) : Prop where
  alike : ∀ id s, a.hub.sessions.byId.lookup id = some s →
    ∃ w, a.watched id = some w ∧ w.session.Alike s
  /-- A task has what the timer or the expiry handed back. -/
  returned : ∀ task ∈ a.tasks,
    task.dead.map (fun c => (c.client, c.msg)) = task.cause.returned task.hub
  /-- An expiry that removes a session hands back every message of its queue that is not
  confirmed and outside the dead-letter namespace, in the order of the queue. -/
  purged : ∀ task ∈ a.tasks, ∀ id generation, task.cause = .expire id generation →
    ∀ s, task.hub.sessions.byId.lookup id = some s → s.generation = generation → s.tx = none →
      task.dead.map (fun c => (c.client, c.msg)) =
        (s.inflight.filterMap InflightEntry.drained).map fun msg => (s.clientId, msg)
  /-- Every message that is handed back is one of a session's queue. -/
  given : ∀ task ∈ a.tasks, ∃ hd, task.cause.lethal = some (task.reason, hd) ∧
    ∀ c ∈ task.dead, a.Gave hd c
  outside : ∀ task ∈ a.tasks, ∀ c ∈ task.dead, isDlqTopic c.msg.publish.topic = false
  unconfirmed : ∀ task ∈ a.tasks, ∀ c ∈ task.dead, ∀ w, a.watched c.id = some w →
    ∀ t ∈ w.turns, ∀ r ∈ t.records, r.name = c.name → ¬ t.Confirms r
  posted : a.Posted
  /-- The retry timer, called now, dead-letters all that its tick hands back. -/
  retries : ∀ clock h', a.hub.runRetries clock = some h' →
    ∃ steps a' task, Machine.run Audit.step a steps = some a' ∧ a'.hub = h' ∧
      a'.tasks = a.tasks ++ [task] ∧ task.cause = .tick (clock 0).now ∧ task.hub = a.hub ∧
        task.done = task.dead.length
  /-- So does the purge of a session. -/
  purges : ∀ id generation clock h', a.hub.purgeIfIdle id generation clock = some h' →
    ∃ steps a' task, Machine.run Audit.step a steps = some a' ∧ a'.hub = h' ∧
      a'.tasks = a.tasks ++ [task] ∧ task.cause = .expire id generation ∧ task.hub = a.hub ∧
        task.done = task.dead.length

/-- From a start on any store, over every interleaving of sections and dead letters: what the
timer and the expiries hand back is on record as given up, each message once and unconfirmed,
and each is dead-lettered by one write and one publish. -/
theorem accounted_always (storage : Option Storage) (retry : RetryConfig) (eventLogMax now : Nat)
    (steps : List AuditStep) :
    Machine.Always step Accounted (start (Hub.new storage retry eventLogMax now)) steps := by
  set h₀ := Hub.new storage retry eventLogMax now
  refine Machine.always_of_invariant (fun a => a.Tracks ∧ (∀ task ∈ a.tasks, a.Filed task) ∧
    a.Each (fun s w => w.Account s) h₀ ∧ a.Posted) ?_ ?_ ?_
  · rintro a st a' ⟨htracks, hfiled, haccount, hposted⟩ hstep
    obtain ⟨htracks', hstepped⟩ := htracks.step hstep
    exact ⟨htracks', htracks.filed hfiled hstepped, haccount.step Watched.kept_account hstepped,
      hposted.step haccount hfiled hstepped⟩
  · rintro a ⟨htracks, hfiled, haccount, hposted⟩
    have hfallen : ∀ task ∈ a.tasks, ∀ c ∈ task.dead, isDlqTopic c.msg.publish.topic = false ∧
        ∀ w, a.watched c.id = some w → ∀ t ∈ w.turns, ∀ r ∈ t.records, r.name = c.name →
          ¬ t.Confirms r := by
      intro task htask c hc
      obtain ⟨-, hd, -, hgave⟩ := hfiled task htask
      exact haccount.of_gave (hgave c hc)
    refine ⟨htracks.alike, fun task htask => (hfiled task htask).returned, ?_,
      fun task htask => (hfiled task htask).given, fun task htask c hc => (hfallen task htask c hc).1,
      fun task htask c hc => (hfallen task htask c hc).2, hposted,
      fun _ _ => htracks.exists_run_runRetries, fun _ _ _ _ => htracks.exists_run_purgeIfIdle⟩
    intro task htask id generation hcause s hs hgeneration hoffline
    rw [(hfiled task htask).returned, hcause, Section.returned, Hub.expire, hs]
    exact congrArg Prod.fst (if_pos ⟨hgeneration, hoffline⟩)
  · refine ⟨tracks_start (Hub.consistent_new ..), ?_,
      each_start Watched.kept_account (Hub.offline_new storage retry eventLogMax now),
      ⟨List.nodup_nil, ?_, ?_, List.nodup_nil, ?_⟩⟩
    · intro task htask
      cases htask
    · intro k task htask
      cases htask
    · intro l hl
      cases hl
    · intro l hl
      cases hl

end Audit

end Relay
