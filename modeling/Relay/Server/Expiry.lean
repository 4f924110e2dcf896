import Relay.Server.Startup

/-! # When sessions expire

A session that a connection leaves behind is purged by a task that sleeps for its expiry
interval. A resume does not cancel the task; it moves the session to another generation, so
that the task finds nothing to purge. Here the hub runs against a clock, with the tasks that
are asleep: whatever the order of connects, detaches and wake-ups, no session is purged
before its interval is over, and none outlives it by more than the tasks are late.
-/

namespace Relay

def nanos (secs : Nat) : Nat := secs * 1000000000

structure Alarm where
  due : Nat
  purge : Purge

def Purge.alarm (now : Nat) (p : Purge) : Alarm := ⟨now + nanos p.afterSecs, p⟩

/-- The hub, the clock, the tasks asleep, and for every session when it went offline. -/
structure Lifetimes where
  hub : Hub
  now : Nat
  pending : List Alarm
  left : ClientId → Nat

inductive LifetimeStep where
  | act (sec : Section)
  | wake (k : Nat)
  | pass (time : Nat)

def Section.isExpire : Section → Bool
  | .expire .. => true
  | _ => false

/-- A session is detached between the two hubs. -/
def Hub.leaves (h h' : Hub) (id : ClientId) : Bool :=
  (h.sessions.holder id).any (·.online) && (h'.sessions.holder id).any (!·.online)

/-- A session that is held as before, or by a connection, was not detached. -/
theorem Hub.leaves_eq_false {h h' : Hub} {id : ClientId}
    (hstays : ∀ a, h'.sessions.holder id = some a →
      h.sessions.holder id = some a ∨ a.online = true) : h.leaves h' id = false := by
  unfold leaves
  cases hholder : h'.sessions.holder id with
  | none => simp
  | some a =>
      rcases hstays a hholder with hsame | honline
      · cases honline : a.online <;> simp [hsame, honline]
      · simp [honline]

namespace Lifetimes

/-- The sessions that a hub starts with count as detached at its start. -/
def start (h : Hub) (now : Nat) : Lifetimes :=
  ⟨h, now, h.timers.map (Purge.alarm now), fun _ => now⟩

/-- Sessions expire only when a task wakes up, which it does not do early. -/
def step (b : Lifetimes) : LifetimeStep → Option Lifetimes
  | .act sec =>
      if sec.isExpire then none
      else
        (b.hub.act sec).map fun hub' =>
          { b with
            hub := hub'
            pending := b.pending ++
              (hub'.timers.drop b.hub.timers.length).map (Purge.alarm b.now)
            left := fun id => if b.hub.leaves hub' id then b.now else b.left id }
  | .wake k => do
      let alarm ← b.pending[k]?
      if alarm.due ≤ b.now then
        some
          { b with
            hub := (b.hub.expire alarm.purge.id alarm.purge.generation).2
            pending := b.pending.eraseIdx k }
      else none
  | .pass time => some { b with now := b.now + time }

end Lifetimes

/-! ## What a section does to the holders and the timers -/

namespace Hub

variable {h h' : Hub}

theorem timers_persistMeta (h : Hub) (clientId : String) (expirySecs : Nat) :
    (h.persistMeta clientId expirySecs).timers = h.timers := by
  unfold persistMeta
  split <;> rfl

theorem timers_discard (h : Hub) (id : ClientId) : (h.discard id).timers = h.timers := by
  unfold discard
  split <;> rfl

/-- A CONNECT cancels no task; a stale one finds another generation. -/
theorem timers_connect {clientId : String} {cleanStart : Bool} {expirySecs now : Nat}
    {c : Connected} (hconnect : h.connect clientId cleanStart expirySecs now = some (c, h')) :
    h'.timers = h.timers := by
  rcases connect_cases hconnect with
    ⟨-, -, rfl⟩ | ⟨id, -, -, -, rfl⟩ | ⟨id, s, -, -, -, -, rfl⟩ <;>
  · rw [timers_persistMeta]
    rfl

theorem timers_deliverAll {targets : List (ClientId × QoS)} {topic : String} {payload : Bytes}
    {msgQos : QoS} {now : Nat} {f : Fanout}
    (hdeliver : h.deliverAll targets topic payload msgQos now = some f) :
    f.hub.timers = h.timers := by
  have hone : ∀ (f f' : Fanout) (target : ClientId × QoS),
      deliverTo topic payload msgQos now f target = some f' → f'.hub.timers = f.hub.timers := by
    intro f f' target hf
    unfold deliverTo at hf
    split at hf
    · cases hf
      rfl
    · obtain ⟨s', -, heq⟩ := Option.bind_eq_some_iff.mp hf
      cases heq
      rfl
  have hall : ∀ (targets : List (ClientId × QoS)) (f f' : Fanout),
      targets.foldlM (deliverTo topic payload msgQos now) f = some f' →
        f'.hub.timers = f.hub.timers := by
    intro targets
    induction targets with
    | nil =>
        intro f f' hf
        cases hf
        rfl
    | cons target rest ih =>
        intro f f' hf
        rw [List.foldlM_cons] at hf
        obtain ⟨f₁, hfirst, hrest⟩ := Option.bind_eq_some_iff.mp hf
        exact (ih f₁ f' hrest).trans (hone f f₁ target hfirst)
  exact hall targets _ f hdeliver

/-- Only a detach puts a task to sleep. -/
theorem timers_act {sec : Section} (hdetach : ∀ id generation, sec ≠ .detach id generation)
    (hact : h.act sec = some h') : h'.timers = h.timers := by
  cases sec with
  | detach id generation => exact absurd rfl (hdetach id generation)
  | connect clientId cleanStart expirySecs now =>
      obtain ⟨⟨c, h₁⟩, hconnect, rfl⟩ := Option.map_eq_some_iff.mp hact
      exact timers_connect hconnect
  | expire id generation =>
      cases hact
      rcases h.expire_cases id generation with ⟨heq, -⟩ | ⟨s, -, -, heq⟩
      · rw [heq]
      · rw [heq]
        exact timers_discard _ id
  | deliver targets topic payload msgQos now =>
      obtain ⟨f, hf, rfl⟩ := Option.map_eq_some_iff.mp hact
      exact timers_deliverAll hf
  | replayRetained id messages granted now =>
      obtain ⟨⟨snapshot, h₁⟩, hreplay, rfl⟩ := Option.map_eq_some_iff.mp hact
      unfold replayRetained at hreplay
      split at hreplay
      · cases hreplay
        rfl
      · obtain ⟨s', -, heq⟩ := Option.bind_eq_some_iff.mp hreplay
        cases heq
        rfl
  | acknowledge id ack =>
      cases hact
      unfold acknowledge
      split <;> rfl
  | qos2Seen id pid =>
      cases hact
      unfold inboundQos2Seen
      split <;> rfl
  | qos2Release id pid =>
      cases hact
      unfold inboundQos2Release
      split <;> rfl
  | send id packets =>
      cases hact
      unfold sendAll
      split <;> rfl
  | unroute id raw =>
      cases hact
      unfold unroute
      split <;> rfl
  | work =>
      obtain ⟨d, d', -, -, rfl⟩ := exists_of_work hact
      rfl
  | _ =>
      cases hact
      rfl

/-- What a section other than an expiry does to who holds the sessions, and which tasks it
puts to sleep. -/
inductive Moved (h h' : Hub) : Prop where
  | still (holder : h'.sessions.holder = h.sessions.holder)
      (generation : h'.sessions.generation = h.sessions.generation) (timers : h'.timers = h.timers)
  | attached (id : ClientId) (clientId : String) (expirySecs : Nat)
      (holder : h'.sessions.holder = Function.update
        (fun i => (h.sessions.holder i).filter fun a => a.clientId ≠ clientId) id
        (some ⟨clientId, expirySecs, h.sessions.generation + 1, true⟩))
      (generation : h'.sessions.generation = h.sessions.generation + 1)
      (timers : h'.timers = h.timers)
  | dropped (id : ClientId) (holder : h'.sessions.holder = Function.update h.sessions.holder id none)
      (generation : h'.sessions.generation = h.sessions.generation) (timers : h'.timers = h.timers)
  | parted (id : ClientId) (a : Holder) (held : h.sessions.holder id = some a)
      (holder : h'.sessions.holder =
        Function.update h.sessions.holder id (some { a with online := false }))
      (generation : h'.sessions.generation = h.sessions.generation)
      (timers : h'.timers = h.timers ++
        if a.expirySecs = noExpiry then [] else [⟨id, a.generation, a.expirySecs⟩])

/-- A detach ends the session at once, or keeps it with a task put to sleep unless it
never expires; a late one does nothing. -/
theorem moved_detach (h : Hub) (id : ClientId) (generation : Nat) :
    Moved h (h.detach id generation) := by
  have hgeneration := h.generation_detach id generation
  have hholder := h.holder_detach id generation
  cases hs : h.sessions.byId.lookup id with
  | none =>
      have hsame : h.detach id generation = h := by
        unfold detach
        rw [hs]
      exact .still (by rw [hsame]) hgeneration (by rw [hsame])
  | some s =>
      have hheld : h.sessions.holder id = some s.holder := congrArg (Option.map _) hs
      rw [hheld, Option.bind_some] at hholder
      by_cases hcurrent : s.generation = generation
      · by_cases hexpiry : s.expirySecs = 0
        · refine .dropped id ?_ hgeneration ?_
          · have hleft : s.holder.detached generation = none :=
              (if_pos hcurrent).trans (if_pos hexpiry)
            rw [hholder, hleft]
          · unfold detach
            rw [hs]
            dsimp only
            rw [if_pos hcurrent, if_pos hexpiry, timers_discard]
            rfl
        · refine .parted id s.holder hheld ?_ hgeneration ?_
          · have hleft : s.holder.detached generation = some { s.holder with online := false } :=
              (if_pos hcurrent).trans (if_neg hexpiry)
            rw [hholder, hleft]
          · subst hcurrent
            unfold detach
            rw [hs]
            dsimp only
            rw [if_pos rfl, if_neg hexpiry]
            by_cases hnever : s.expirySecs = noExpiry
            · rw [if_neg (not_not.mpr hnever)]
              simp only [Session.holder, hnever, if_true, List.append_nil]
              rfl
            · rw [if_pos hnever]
              simp only [Session.holder, hnever, if_false]
              rfl
      · have hsame : h.detach id generation = h := by
          unfold detach
          rw [hs]
          exact if_neg hcurrent
        exact .still (by rw [hsame]) hgeneration (by rw [hsame])

/-- Every section but an expiry is of one of these kinds. -/
theorem Consistent.moved (hcons : h.Consistent) {sec : Section} (hexpire : sec.isExpire = false)
    (hact : h.act sec = some h') : Moved h h' := by
  cases hmoves : sec.moves with
  | false =>
      have hunmoved := unmoved_act hact hmoves
      refine .still hunmoved.holder hunmoved.generation (timers_act ?_ hact)
      rintro id generation rfl
      cases hmoves
  | true =>
      cases sec with
      | connect clientId cleanStart expirySecs now =>
          obtain ⟨⟨c, h₁⟩, hconnect, rfl⟩ := Option.map_eq_some_iff.mp hact
          obtain ⟨hholder, hcurrent, hgeneration⟩ := hcons.holder_connect hconnect
          rw [hcurrent] at hholder
          exact .attached c.id clientId expirySecs hholder hgeneration (timers_connect hconnect)
      | detach id generation =>
          cases hact
          exact h.moved_detach id generation
      | expire id generation => cases hexpire
      | _ => cases hmoves

end Hub

/-! ## Tasks and sessions -/

namespace Lifetimes

variable {b b' : Lifetimes}

/-- The end of the interval of a session that is offline. -/
def ends (b : Lifetimes) (id : ClientId) (a : Holder) : Nat := b.left id + nanos a.expirySecs

/-- Every session that is offline, and does expire, has its task; a task that is for the
present generation of a session is for one that is offline, and does not wake up early. -/
structure Kept (b : Lifetimes) : Prop where
  consistent : b.hub.Consistent
  sessions : ∀ id a, b.hub.sessions.holder id = some a → a.generation ≤ b.hub.sessions.generation
  alarms : ∀ alarm ∈ b.pending, alarm.purge.generation ≤ b.hub.sessions.generation
  armed : ∀ id a, b.hub.sessions.holder id = some a → a.online = false →
    a.expirySecs ≠ noExpiry → ∃ alarm ∈ b.pending, alarm.purge.id = id ∧
      alarm.purge.generation = a.generation ∧ alarm.due = b.ends id a
  patient : ∀ alarm ∈ b.pending, ∀ a, b.hub.sessions.holder alarm.purge.id = some a →
    alarm.purge.generation = a.generation → a.online = false ∧ a.expirySecs ≠ noExpiry ∧
      b.ends alarm.purge.id a ≤ alarm.due

/-- The clock alone changes nothing. -/
theorem Kept.pass (hb : b.Kept) (time : Nat) : Kept { b with now := b.now + time } :=
  ⟨hb.consistent, hb.sessions, hb.alarms, hb.armed, hb.patient⟩

/-- Attachments, counters and tasks are all that matters. -/
theorem Kept.still (hb : b.Kept) (hcons : b'.hub.Consistent)
    (hholder : b'.hub.sessions.holder = b.hub.sessions.holder)
    (hgeneration : b'.hub.sessions.generation = b.hub.sessions.generation)
    (hpending : b'.pending = b.pending) (hleft : b'.left = b.left) : b'.Kept where
  consistent := hcons
  sessions := by
    rw [hholder, hgeneration]
    exact hb.sessions
  alarms := by
    rw [hpending, hgeneration]
    exact hb.alarms
  armed := by
    unfold ends
    rw [hholder, hpending, hleft]
    exact hb.armed
  patient := by
    unfold ends
    rw [hholder, hpending, hleft]
    exact hb.patient

/-- A session that is gone leaves its tasks behind. -/
theorem Kept.dropped (hb : b.Kept) (hcons : b'.hub.Consistent) {id : ClientId}
    (hholder : b'.hub.sessions.holder = Function.update b.hub.sessions.holder id none)
    (hgeneration : b'.hub.sessions.generation = b.hub.sessions.generation)
    (hpending : ∀ alarm ∈ b'.pending, alarm ∈ b.pending)
    (hstays : ∀ alarm ∈ b.pending, alarm.purge.id ≠ id → alarm ∈ b'.pending)
    (hleft : b'.left = b.left) : b'.Kept := by
  have hold : ∀ i a, b'.hub.sessions.holder i = some a →
      i ≠ id ∧ b.hub.sessions.holder i = some a := by
    intro i a ha
    rw [hholder, Function.update_apply] at ha
    split at ha
    · cases ha
    next hne => exact ⟨hne, ha⟩
  refine ⟨hcons, fun i a ha => ?_, fun alarm halarm => ?_, fun i a ha hoffline hexpires => ?_,
    fun alarm halarm a ha hcurrent => ?_⟩
  · rw [hgeneration]
    exact hb.sessions i a (hold i a ha).2
  · rw [hgeneration]
    exact hb.alarms alarm (hpending alarm halarm)
  · obtain ⟨hne, hheld⟩ := hold i a ha
    obtain ⟨alarm, halarm, hid, hrest⟩ := hb.armed i a hheld hoffline hexpires
    unfold ends at hrest ⊢
    rw [hleft]
    exact ⟨alarm, hstays alarm halarm (hid ▸ hne), hid, hrest⟩
  · have hpatient := hb.patient alarm (hpending alarm halarm) a (hold _ a ha).2 hcurrent
    unfold ends at hpatient ⊢
    rwa [hleft]

/-- A connect moves the session of its client to a generation that no task is for. -/
theorem Kept.attached (hb : b.Kept) (hcons : b'.hub.Consistent) {id : ClientId} {clientId : String}
    {expirySecs : Nat}
    (hholder : b'.hub.sessions.holder = Function.update
      (fun i => (b.hub.sessions.holder i).filter fun a => a.clientId ≠ clientId) id
      (some ⟨clientId, expirySecs, b.hub.sessions.generation + 1, true⟩))
    (hgeneration : b'.hub.sessions.generation = b.hub.sessions.generation + 1)
    (hpending : b'.pending = b.pending) (hleft : b'.left = b.left) : b'.Kept := by
  have hcases : ∀ i a, b'.hub.sessions.holder i = some a →
      a = ⟨clientId, expirySecs, b.hub.sessions.generation + 1, true⟩ ∨
        b.hub.sessions.holder i = some a := by
    intro i a ha
    rw [hholder, Function.update_apply] at ha
    split at ha
    · exact Or.inl (Option.some.inj ha).symm
    · exact Or.inr (Option.filter_eq_some_iff.mp ha).1
  refine ⟨hcons, fun i a ha => ?_, fun alarm halarm => ?_, fun i a ha hoffline hexpires => ?_,
    fun alarm halarm a ha hcurrent => ?_⟩
  · rw [hgeneration]
    rcases hcases i a ha with rfl | hheld
    · exact Nat.le_refl _
    · exact (hb.sessions i a hheld).trans (Nat.le_succ _)
  · rw [hgeneration]
    exact (hb.alarms alarm (hpending ▸ halarm)).trans (Nat.le_succ _)
  · rcases hcases i a ha with rfl | hheld
    · cases hoffline
    · rw [ends, hleft, hpending]
      exact hb.armed i a hheld hoffline hexpires
  · rw [hpending] at halarm
    rcases hcases _ a ha with rfl | hheld
    · have hle := hb.alarms alarm halarm
      have hcurrent : alarm.purge.generation = b.hub.sessions.generation + 1 := hcurrent
      omega
    · rw [ends, hleft]
      exact hb.patient alarm halarm a hheld hcurrent

/-- A detach puts a task to sleep for the session that it leaves offline. -/
theorem Kept.parted (hb : b.Kept) (hcons : b'.hub.Consistent) {id : ClientId} {a : Holder}
    (hheld : b.hub.sessions.holder id = some a)
    (hholder : b'.hub.sessions.holder =
      Function.update b.hub.sessions.holder id (some { a with online := false }))
    (hgeneration : b'.hub.sessions.generation = b.hub.sessions.generation)
    (hpending : b'.pending = b.pending ++
      (if a.expirySecs = noExpiry then [] else
        [(⟨id, a.generation, a.expirySecs⟩ : Purge)]).map (Purge.alarm b.now))
    (hnow : b.left id ≤ b.now)
    (hleft : b'.left = Function.update b.left id (if a.online then b.now else b.left id)) :
    b'.Kept := by
  have hcases : ∀ i c, b'.hub.sessions.holder i = some c →
      (i = id ∧ c = { a with online := false }) ∨ (i ≠ id ∧ b.hub.sessions.holder i = some c) := by
    intro i c hc
    rw [hholder, Function.update_apply] at hc
    split at hc
    next heq => exact Or.inl ⟨heq, (Option.some.inj hc).symm⟩
    next hne => exact Or.inr ⟨hne, hc⟩
  have hnew : ∀ alarm ∈ b'.pending, alarm ∈ b.pending ∨ (a.expirySecs ≠ noExpiry ∧
      alarm = ⟨b.now + nanos a.expirySecs, id, a.generation, a.expirySecs⟩) := by
    intro alarm halarm
    rw [hpending, List.mem_append] at halarm
    refine halarm.imp_right fun hmem => ?_
    split at hmem
    · cases hmem
    next hexpires => exact ⟨hexpires, List.mem_singleton.mp hmem⟩
  have hsame : ∀ i c, i ≠ id → b'.ends i c = b.ends i c := by
    intro i c hne
    rw [ends, ends, hleft, Function.update_of_ne hne]
  have hends : b'.ends id { a with online := false } =
      (if a.online then b.now else b.left id) + nanos a.expirySecs := by
    rw [ends, hleft, Function.update_self]
  refine ⟨hcons, fun i c hc => ?_, fun alarm halarm => ?_, fun i c hc hoffline hexpires => ?_,
    fun alarm halarm c hc hcurrent => ?_⟩
  · rw [hgeneration]
    rcases hcases i c hc with ⟨rfl, rfl⟩ | ⟨-, hc⟩
    · exact hb.sessions i a hheld
    · exact hb.sessions i c hc
  · rw [hgeneration]
    rcases hnew alarm halarm with hold | ⟨-, rfl⟩
    · exact hb.alarms alarm hold
    · exact hb.sessions id a hheld
  · rcases hcases i c hc with ⟨rfl, rfl⟩ | ⟨hne, hc⟩
    · cases honline : a.online with
      | true =>
          refine ⟨⟨b.now + nanos a.expirySecs, i, a.generation, a.expirySecs⟩, ?_, rfl, rfl, ?_⟩
          · rw [hpending, if_neg hexpires]
            exact List.mem_append_right _ (List.mem_singleton_self _)
          · rw [hends, honline]
            rfl
      | false =>
          -- it was offline before, and its first task is the one that counts
          obtain ⟨alarm, halarm, hid, hcurrent, hdue⟩ := hb.armed i a hheld honline hexpires
          refine ⟨alarm, hpending ▸ List.mem_append_left _ halarm, hid, hcurrent, ?_⟩
          rw [hends, honline, hdue]
          rfl
    · rw [hsame i c hne]
      obtain ⟨alarm, halarm, hrest⟩ := hb.armed i c hc hoffline hexpires
      exact ⟨alarm, hpending ▸ List.mem_append_left _ halarm, hrest⟩
  · rcases hcases _ c hc with ⟨hid, rfl⟩ | ⟨hne, hc⟩
    · rw [hid, hends]
      rcases hnew alarm halarm with hold | ⟨hexpires, rfl⟩
      · obtain ⟨hoffline, hexpires, hle⟩ := hb.patient alarm hold a (hid ▸ hheld) hcurrent
        rw [hid] at hle
        rw [hoffline]
        exact ⟨rfl, hexpires, hle⟩
      · refine ⟨rfl, hexpires, Nat.add_le_add_right ?_ _⟩
        split
        · exact Nat.le_refl _
        · exact hnow
    · rcases hnew alarm halarm with hold | ⟨-, rfl⟩
      · rw [hsame _ c hne]
        exact hb.patient alarm hold c hc hcurrent
      · exact absurd rfl hne

/-- No session went offline in the future. -/
def Past (b : Lifetimes) : Prop := ∀ id, b.left id ≤ b.now

theorem exists_of_act {sec : Section} (hstep : b.step (.act sec) = some b') :
    sec.isExpire = false ∧ ∃ hub', b.hub.act sec = some hub' ∧ b' = { b with
      hub := hub'
      pending := b.pending ++ (hub'.timers.drop b.hub.timers.length).map (Purge.alarm b.now)
      left := fun id => if b.hub.leaves hub' id then b.now else b.left id } := by
  rw [step] at hstep
  split at hstep
  · cases hstep
  next hexpire =>
    obtain ⟨hub', hact, heq⟩ := Option.map_eq_some_iff.mp hstep
    exact ⟨Bool.eq_false_iff.mpr hexpire, hub', hact, heq.symm⟩

theorem Past.act (hpast : b.Past) {sec : Section} (hstep : b.step (.act sec) = some b') :
    b'.Past := by
  obtain ⟨-, hub', -, rfl⟩ := exists_of_act hstep
  intro id
  dsimp only
  split
  · exact Nat.le_refl _
  · exact hpast id

/-- A detach puts the task to sleep with the interval counted from now. -/
theorem Kept.act (hb : b.Kept) (hpast : b.Past) {sec : Section}
    (hstep : b.step (.act sec) = some b') : b'.Kept := by
  obtain ⟨hexpire, hub', hact, rfl⟩ := exists_of_act hstep
  have hcons := hb.consistent.effect (Hub.act_effect hact)
  have hnone : hub'.timers = b.hub.timers → b.pending ++
      (hub'.timers.drop b.hub.timers.length).map (Purge.alarm b.now) = b.pending := by
    intro htimers
    rw [htimers, List.drop_length, List.map_nil, List.append_nil]
  have hleft : (∀ i a, hub'.sessions.holder i = some a →
      b.hub.sessions.holder i = some a ∨ a.online = true) →
      (fun i => if b.hub.leaves hub' i then b.now else b.left i) = b.left := by
    intro hstays
    funext i
    rw [Hub.leaves_eq_false (hstays i)]
    rfl
  cases hb.consistent.moved hexpire hact with
  | still hholder hgeneration htimers =>
      refine hb.still hcons hholder hgeneration (hnone htimers) (hleft fun i a ha => Or.inl ?_)
      rwa [hholder] at ha
  | attached id clientId expirySecs hholder hgeneration htimers =>
      refine hb.attached hcons hholder hgeneration (hnone htimers) (hleft fun i a ha => ?_)
      rw [hholder, Function.update_apply] at ha
      split at ha
      · cases ha
        exact Or.inr rfl
      · exact Or.inl (Option.filter_eq_some_iff.mp ha).1
  | dropped id hholder hgeneration htimers =>
      have hpending := hnone htimers
      refine hb.dropped hcons hholder hgeneration (fun alarm halarm => hpending ▸ halarm)
        (fun alarm halarm _ => hpending.symm ▸ halarm) (hleft fun i a ha => Or.inl ?_)
      rw [hholder, Function.update_apply] at ha
      split at ha
      · cases ha
      · exact ha
  | parted id a hheld hholder hgeneration htimers =>
      refine hb.parted hcons hheld hholder hgeneration ?_ (hpast id) (funext fun i => ?_)
      · dsimp only
        rw [htimers, List.drop_left]
      · by_cases hid : i = id
        · subst hid
          simp only [Function.update_self, Hub.leaves, hholder, hheld]
          simp
        · have hstays : b.hub.leaves hub' i = false := by
            refine Hub.leaves_eq_false fun c hc => Or.inl ?_
            rwa [hholder, Function.update_of_ne hid] at hc
          rw [Function.update_of_ne hid]
          exact if_neg (Bool.eq_false_iff.mp hstays)

/-! ## A task wakes up -/

theorem exists_of_wake {k : Nat} (hstep : b.step (.wake k) = some b') :
    ∃ alarm, b.pending[k]? = some alarm ∧ alarm.due ≤ b.now ∧ b' = { b with
      hub := (b.hub.expire alarm.purge.id alarm.purge.generation).2
      pending := b.pending.eraseIdx k } := by
  rw [step, Option.bind_eq_bind, Option.bind_eq_some_iff] at hstep
  obtain ⟨alarm, halarm, hrest⟩ := hstep
  split at hrest
  next hdue => exact ⟨alarm, halarm, hdue, (Option.some.inj hrest).symm⟩
  next => cases hrest

/-- It purges the session that it is for, which has been offline for its interval, or none. -/
theorem Kept.holder_wake (hb : b.Kept) {k : Nat} {alarm : Alarm} (halarm : b.pending[k]? = some alarm) :
    (∃ a, b.hub.sessions.holder alarm.purge.id = some a ∧ a.generation = alarm.purge.generation ∧
        a.online = false ∧ a.expirySecs ≠ noExpiry ∧ b.ends alarm.purge.id a ≤ alarm.due ∧
        (b.hub.expire alarm.purge.id alarm.purge.generation).2.sessions.holder =
          Function.update b.hub.sessions.holder alarm.purge.id none) ∨
      ((∀ a, b.hub.sessions.holder alarm.purge.id = some a →
          a.generation ≠ alarm.purge.generation) ∧
        (b.hub.expire alarm.purge.id alarm.purge.generation).2.sessions.holder =
          b.hub.sessions.holder) := by
  have hholder := b.hub.holder_expire alarm.purge.id alarm.purge.generation
  cases hheld : b.hub.sessions.holder alarm.purge.id with
  | none =>
      refine Or.inr ⟨fun a ha => absurd ha (Option.some_ne_none a).symm, ?_⟩
      rw [hholder, hheld, Option.bind_none, ← hheld, Function.update_eq_self]
  | some a =>
      rw [hheld, Option.bind_some] at hholder
      by_cases hcurrent : a.generation = alarm.purge.generation
      · obtain ⟨hoffline, hexpires, hends⟩ :=
          hb.patient alarm (List.mem_of_getElem? halarm) a hheld hcurrent.symm
        refine Or.inl ⟨a, rfl, hcurrent, hoffline, hexpires, hends, ?_⟩
        rw [hholder, Holder.expired, if_pos ⟨hcurrent, hoffline⟩]
      · refine Or.inr ⟨fun c hc => Option.some.inj hc ▸ hcurrent, ?_⟩
        rw [hholder, Holder.expired, if_neg fun hand => hcurrent hand.1, ← hheld,
          Function.update_eq_self]

/-- A task that wakes up finds its session expired, or does nothing. -/
theorem Kept.wake (hb : b.Kept) {k : Nat} (hstep : b.step (.wake k) = some b') : b'.Kept := by
  obtain ⟨alarm, halarm, -, rfl⟩ := exists_of_wake hstep
  have hcons : (b.hub.expire alarm.purge.id alarm.purge.generation).2.Consistent :=
    hb.consistent.effect
      (Hub.act_effect (a := .expire alarm.purge.id alarm.purge.generation) rfl)
  have hgeneration := b.hub.generation_expire alarm.purge.id alarm.purge.generation
  have hfewer : ∀ other ∈ b.pending.eraseIdx k, other ∈ b.pending :=
    fun other => List.mem_of_mem_eraseIdx
  have hothers : ∀ other ∈ b.pending, other ≠ alarm → other ∈ b.pending.eraseIdx k := by
    intro other hmem hne
    obtain ⟨i, hi⟩ := List.mem_iff_getElem?.mp hmem
    refine List.mem_eraseIdx_iff_getElem?.mpr ⟨i, ?_, hi⟩
    rintro rfl
    exact hne (Option.some.inj (hi.symm.trans halarm))
  rcases hb.holder_wake halarm with ⟨a, -, -, -, -, -, hholder⟩ | ⟨hstale, hholder⟩
  · refine hb.dropped hcons hholder hgeneration hfewer (fun other hmem hne => ?_) rfl
    refine hothers other hmem ?_
    rintro rfl
    exact hne rfl
  · refine ⟨hcons, ?_, ?_, ?_, ?_⟩
    · dsimp only
      rw [hholder, hgeneration]
      exact hb.sessions
    · intro other hmem
      dsimp only
      rw [hgeneration]
      exact hb.alarms other (hfewer other hmem)
    · dsimp only
      rw [hholder]
      intro id a ha hoffline hexpires
      obtain ⟨other, hmem, hid, hcurrent, hdue⟩ := hb.armed id a ha hoffline hexpires
      refine ⟨other, hothers other hmem ?_, hid, hcurrent, hdue⟩
      rintro rfl
      exact hstale a (hid ▸ ha) hcurrent.symm
    · dsimp only
      rw [hholder]
      exact fun other hmem => hb.patient other (hfewer other hmem)

end Lifetimes

/-! ## Startup -/

namespace Hub

/-- The tasks of the sessions loaded so far. -/
theorem toExpire_foldl (st : Storage) (retry : RetryConfig) (now : Nat)
    (sessions : List PersistedSession) (l : Loading) (p : Purge) :
    p ∈ (sessions.foldl (loadSession st retry now) l).toExpire ↔ p ∈ l.toExpire ∨
      ∃ i ps, sessions[i]? = some ps ∧ ps.expirySecs ≠ noExpiry ∧
        p = ⟨l.nextRaw + i, 0, ps.expirySecs⟩ := by
  induction sessions generalizing l with
  | nil => simp
  | cons ps rest ih =>
      have hnext : ∀ i, (loadSession st retry now l ps).nextRaw + i = l.nextRaw + (i + 1) :=
        Nat.add_right_comm _ 1
      rw [List.foldl_cons, ih]
      constructor
      · rintro (hold | ⟨i, qs, hqs, hexpires, rfl⟩)
        · rw [loadSession] at hold
          dsimp only at hold
          split at hold
          · exact Or.inl hold
          next hexpires =>
            rcases List.mem_append.mp hold with hold | hnew
            · exact Or.inl hold
            · exact Or.inr ⟨0, ps, rfl, hexpires, List.mem_singleton.mp hnew⟩
        · exact Or.inr ⟨i + 1, qs, hqs, hexpires, by rw [hnext]⟩
      · rintro (hold | ⟨i, qs, hqs, hexpires, rfl⟩)
        · refine Or.inl ?_
          rw [loadSession]
          dsimp only
          split
          · exact hold
          · exact List.mem_append_left _ hold
        · cases i with
          | zero =>
              obtain rfl := Option.some.inj hqs
              refine Or.inl ?_
              rw [loadSession]
              dsimp only
              rw [if_neg hexpires]
              exact List.mem_append_right _ (List.mem_singleton_self _)
          | succ i => exact Or.inr ⟨i, qs, hqs, hexpires, by rw [hnext]⟩

/-- A started hub has a task for each loaded session that does expire. -/
theorem mem_timers_new (st : Storage) (retry : RetryConfig) (eventLogMax now : Nat) (p : Purge) :
    p ∈ (new (some st) retry eventLogMax now).timers ↔
      ∃ ps, slot st.loadSessions p.id = some ps ∧ ps.expirySecs ≠ noExpiry ∧
        p.generation = 0 ∧ p.afterSecs = ps.expirySecs := by
  refine (toExpire_foldl st retry now st.loadSessions _ p).trans ?_
  simp only [List.not_mem_nil, false_or]
  constructor
  · rintro ⟨i, ps, hps, hexpires, rfl⟩
    refine ⟨ps, ?_, hexpires, rfl, rfl⟩
    rw [Nat.add_comm]
    exact hps
  · rintro ⟨ps, hslot, hexpires, hgeneration, hafter⟩
    obtain ⟨id, generation, afterSecs⟩ := p
    cases id with
    | zero => cases hslot
    | succ i =>
        refine ⟨i, ps, hslot, hexpires, ?_⟩
        rw [Nat.add_comm 1 i]
        exact congrArg₂ (Purge.mk (i + 1)) hgeneration hafter

end Hub

namespace Lifetimes

variable {b : Lifetimes}

/-- Loaded sessions are offline from the start. -/
theorem kept_start (storage : Option Storage) (retry : RetryConfig) (eventLogMax now : Nat) :
    (start (Hub.new storage retry eventLogMax now) now).Kept := by
  have hcons := Hub.consistent_new storage retry eventLogMax now
  cases storage with
  | none =>
      have hempty : ∀ id a, (Hub.new none retry eventLogMax now).sessions.holder id ≠ some a := by
        intro id a ha
        cases ha
      exact ⟨hcons, fun id a ha => absurd ha (hempty id a), List.forall_mem_nil _,
        fun id a ha => absurd ha (hempty id a), List.forall_mem_nil _⟩
  | some st =>
      have hheld : ∀ id a, (Hub.new (some st) retry eventLogMax now).sessions.holder id = some a →
          ∃ ps, Hub.slot st.loadSessions id = some ps ∧ a = ⟨ps.clientId, ps.expirySecs, 0, false⟩ := by
        intro id a ha
        rw [Hub.holder_new, Option.map_eq_some_iff] at ha
        obtain ⟨ps, hps, heq⟩ := ha
        exact ⟨ps, hps, heq.symm⟩
      have halarms : ∀ alarm ∈ (start (Hub.new (some st) retry eventLogMax now) now).pending,
          ∃ ps, Hub.slot st.loadSessions alarm.purge.id = some ps ∧ ps.expirySecs ≠ noExpiry ∧
            alarm.purge.generation = 0 ∧ alarm.due = now + nanos ps.expirySecs := by
        intro alarm halarm
        obtain ⟨p, hp, rfl⟩ := List.mem_map.mp halarm
        obtain ⟨ps, hslot, hexpires, hgeneration, hafter⟩ := (Hub.mem_timers_new ..).mp hp
        exact ⟨ps, hslot, hexpires, hgeneration, by rw [Purge.alarm, hafter]⟩
      refine ⟨hcons, fun id a ha => ?_, fun alarm halarm => ?_, fun id a ha hoffline hexpires => ?_,
        fun alarm halarm a ha hcurrent => ?_⟩
      · obtain ⟨ps, -, rfl⟩ := hheld id a ha
        exact Nat.zero_le _
      · obtain ⟨ps, -, -, hgeneration, -⟩ := halarms alarm halarm
        rw [hgeneration]
        exact Nat.zero_le _
      · obtain ⟨ps, hslot, rfl⟩ := hheld id a ha
        refine ⟨Purge.alarm now ⟨id, 0, ps.expirySecs⟩, List.mem_map_of_mem ?_, rfl, rfl, rfl⟩
        exact (Hub.mem_timers_new ..).mpr ⟨ps, hslot, hexpires, rfl, rfl⟩
      · obtain ⟨ps, hslot, hexpires, -, hdue⟩ := halarms alarm halarm
        obtain ⟨qs, hslot', rfl⟩ := hheld _ a ha
        obtain rfl := Option.some.inj (hslot.symm.trans hslot')
        exact ⟨rfl, hexpires, hdue.ge⟩

structure OnTime (b : Lifetimes) : Prop where
  /-- If the tasks are not later than this, no session outlives its interval by more. -/
  purged : ∀ slack, (∀ alarm ∈ b.pending, b.now ≤ alarm.due + slack) →
    ∀ id s, b.hub.sessions.byId.lookup id = some s → s.tx = none → s.expirySecs ≠ noExpiry →
      b.now ≤ b.left id + nanos s.expirySecs + slack
  /-- A task purges only a session that was offline for its whole interval. -/
  spared : ∀ k b', b.step (.wake k) = some b' →
    ∀ id s, b.hub.sessions.byId.lookup id = some s → b'.hub.sessions.byId.lookup id = none →
      s.tx = none ∧ s.expirySecs ≠ noExpiry ∧ b.left id + nanos s.expirySecs ≤ b.now

theorem Kept.onTime (hb : b.Kept) : b.OnTime where
  purged slack hslack id s hs hoffline hexpires := by
    have hheld : b.hub.sessions.holder id = some s.holder := congrArg (Option.map _) hs
    have hoffline : s.holder.online = false := by simp [Session.holder, hoffline]
    obtain ⟨alarm, halarm, -, -, hdue⟩ := hb.armed id s.holder hheld hoffline hexpires
    have hlate := hslack alarm halarm
    rwa [hdue] at hlate
  spared k b' hstep id s hs hgone := by
    obtain ⟨alarm, halarm, hdue, rfl⟩ := exists_of_wake hstep
    have hheld : b.hub.sessions.holder id = some s.holder := congrArg (Option.map _) hs
    have hgone : (b.hub.expire alarm.purge.id alarm.purge.generation).2.sessions.holder id = none :=
      congrArg (Option.map _) hgone
    rcases hb.holder_wake halarm with ⟨a, ha, -, hoffline, hexpires, hends, hholder⟩ | ⟨-, hholder⟩
    · rw [hholder, Function.update_apply] at hgone
      split at hgone
      next hid =>
        subst hid
        obtain rfl := Option.some.inj (hheld.symm.trans ha)
        refine ⟨?_, hexpires, hends.trans hdue⟩
        exact Option.isNone_iff_eq_none.mp (Option.isSome_eq_false_iff.mp hoffline)
      next => cases hheld.symm.trans hgone
    · rw [hholder, hheld] at hgone
      cases hgone

/-- Sessions expire on time, for every store that the broker starts from and in every order
of sections, wake-ups and passing time. -/
theorem sessions_expire_on_time (storage : Option Storage) (retry : RetryConfig)
    (eventLogMax now : Nat) (steps : List LifetimeStep) :
    Machine.Always step OnTime (start (Hub.new storage retry eventLogMax now) now) steps := by
  refine Machine.always_of_invariant (fun b => b.Kept ∧ b.Past) ?_ (fun b hb => hb.1.onTime)
    ⟨kept_start storage retry eventLogMax now, fun _ => Nat.le_refl _⟩
  rintro b st b' ⟨hkept, hpast⟩ hstep
  cases st with
  | act sec => exact ⟨hkept.act hpast hstep, hpast.act hstep⟩
  | wake k =>
      refine ⟨hkept.wake hstep, ?_⟩
      obtain ⟨alarm, -, -, rfl⟩ := exists_of_wake hstep
      exact hpast
  | pass time =>
      cases hstep
      exact ⟨hkept.pass time, fun id => (hpast id).trans (Nat.le_add_right _ _)⟩

end Lifetimes

end Relay
