import Relay.Server.EachSession
import Relay.Server.Fanout
import Relay.Server.Ledger

/-! # What the hub does to one session

Seen from the session under one handle, a section of the hub is a short list of
handlings: none, one, several deliveries, or the new channel and the retransmission of a
resume. Only settings that no handling reads are set besides. Sessions enter the table
new, online and with an empty queue.
-/

namespace Relay

namespace Session

/-- The sessions differ at most in what the handlings neither read nor change. -/
def Alike (s t : Session) : Prop :=
  t = { s with
    incomingQos2 := t.incomingQos2, expirySecs := t.expirySecs, generation := t.generation }

theorem Alike.refl (s : Session) : s.Alike s := rfl

theorem Alike.symm {s t : Session} (halike : s.Alike t) : t.Alike s := by
  rw [halike]
  rfl

theorem Alike.trans {s t u : Session} (hst : s.Alike t) (htu : t.Alike u) : s.Alike u := by
  rw [Alike] at hst htu ⊢
  rw [hst] at htu
  exact htu

variable {cfg : RetryConfig}

/-- Handlings do not look at inbound identifiers, intervals and generations. -/
theorem handle_with (s : Session) (seen : Finset Nat) (expirySecs generation : Nat)
    (hd : Handling) :
    handle cfg { s with incomingQos2 := seen, expirySecs, generation } hd =
      (s.handle cfg hd).map fun out =>
        ({ out.1 with incomingQos2 := seen, expirySecs, generation }, out.2) := by
  cases hd with
  | pass packets => simp [handle, foldl_send]
  | drain => rfl
  | call op =>
      cases op with
      | deliver topic payload qos retain now =>
          simp only [handle, step, deliver_eq]
          split <;> rfl
      | tickRetries now => simp [handle, tickRetries_eq]
      | onPubrec pid =>
          simp only [handle, step, Option.map_some, onPubrec]
          split
          · rfl
          · split <;> rfl
      | _ => rfl

/-- Handlings do the same to sessions that are alike. -/
theorem Alike.handle {s t : Session} (halike : s.Alike t) {hd : Handling} {out : Session × List DeadMsg}
    (hhandle : s.handle cfg hd = some out) :
    ∃ t', t.handle cfg hd = some (t', out.2) ∧ out.1.Alike t' := by
  rw [halike, handle_with, hhandle]
  exact ⟨_, rfl, rfl⟩

def handleAll (cfg : RetryConfig) : Session → List Handling → Option Session :=
  Machine.run fun s hd => (s.handle cfg hd).map Prod.fst

theorem handleAll_nil (s : Session) : s.handleAll cfg [] = some s := rfl

theorem handleAll_cons {s t : Session} {hd : Handling} {rest : List Handling}
    {out : Session × List DeadMsg} (hhandle : s.handle cfg hd = some out)
    (hrest : out.1.handleAll cfg rest = some t) : s.handleAll cfg (hd :: rest) = some t := by
  rw [handleAll, Machine.run_cons_eq_some]
  exact ⟨out.1, by rw [hhandle]; rfl, hrest⟩

theorem handleAll_single {s t : Session} {hd : Handling} {dead : List DeadMsg}
    (hhandle : s.handle cfg hd = some (t, dead)) : s.handleAll cfg [hd] = some t :=
  handleAll_cons hhandle (handleAll_nil t)

theorem handle_deliver {s t : Session} {topic : String} {payload : Bytes} {qos : QoS}
    {retain : Bool} {now : Nat} (hdeliver : s.deliver topic payload qos retain now cfg = some t) :
    s.handle cfg (.call (.deliver topic payload qos retain now)) = some (t, []) := by
  rw [handle, step, hdeliver]
  · rfl
  · intro _ hne
    cases hne

end Session

/-- A session that is watched follows one that is alike. -/
theorem Watched.exists_run {cfg : RetryConfig} {w : Watched cfg} {s t : Session}
    {handlings : List Handling} (halike : w.session.Alike s)
    (hrun : s.handleAll cfg handlings = some t) :
    ∃ w', Machine.run Watched.step w handlings = some w' ∧ w'.session.Alike t := by
  induction handlings generalizing w s with
  | nil =>
      cases hrun
      exact ⟨w, rfl, halike⟩
  | cons hd rest ih =>
      obtain ⟨s₁, hfirst, hrest⟩ := Machine.run_cons_eq_some.mp hrun
      obtain ⟨out, hhandle, rfl⟩ := Option.map_eq_some_iff.mp hfirst
      obtain ⟨t₁, hwatched, halike₁⟩ := halike.symm.handle hhandle
      obtain ⟨w', hw', hlast⟩ := ih (w := after hwatched) halike₁.symm hrest
      exact ⟨w', Machine.run_cons_eq_some.mpr ⟨_, step_eq hwatched, hw'⟩, hlast⟩

def Ack.op : Ack → SessionOp
  | puback pid => .onPuback pid
  | pubrec pid => .onPubrec pid
  | pubcomp pid => .onPubcomp pid

theorem Ack.handle (cfg : RetryConfig) (s : Session) (ack : Ack) :
    s.handle cfg (.call ack.op) = some (ack.apply s, []) := by
  cases ack <;> rfl

/-- What a section does to the session that is under a handle. -/
def Section.touches (h : Hub) (id : ClientId) (s : Session) : Section → List Handling
  | .connect clientId cleanStart _ now =>
      if h.sessions.idOf.lookup clientId = some id ∧ cleanStart = false then
        [.call .attach, .call (.retransmit now)]
      else []
  | .detach id' generation => if id' = id ∧ s.generation = generation then [.call .detach] else []
  | .expire id' generation =>
      if id' = id ∧ s.generation = generation ∧ s.tx = none then [.drain] else []
  | .deliver targets topic payload msgQos now =>
      (targets.filter fun t => t.1 = id).map fun t =>
        .call (.deliver topic payload (min msgQos t.2) false now)
  | .replayRetained id' messages granted now =>
      if id' = id then
        messages.map fun m => .call (.deliver m.topic m.payload (min m.qos granted) true now)
      else []
  | .tick now => if s.tx = none then [] else [.call (.tickRetries now)]
  | .acknowledge id' ack => if id' = id then [.call ack.op] else []
  | .send id' packets => if id' = id then [.pass packets] else []
  | _ => []

/-- Neither a new channel nor a retry of the timer. -/
def Handling.plain : Handling → Bool
  | .call .attach => false
  | .call (.tickRetries _) => false
  | _ => true

/-- A channel is attached only to be followed by the retransmission, and only online
sessions get a retry. -/
theorem Section.touches_cases (h : Hub) (id : ClientId) (s : Session) (sec : Section) :
    (sec.touches h id s).all Handling.plain = true ∨
      (∃ now, sec.touches h id s = [.call .attach, .call (.retransmit now)]) ∨
      ∃ now, sec.touches h id s = [.call (.tickRetries now)] ∧ s.tx ≠ none := by
  cases sec with
  | connect clientId cleanStart expirySecs now =>
      rw [touches]
      split
      · exact Or.inr (Or.inl ⟨now, rfl⟩)
      · exact Or.inl rfl
  | tick now =>
      rw [touches]
      split
      · exact Or.inl rfl
      next honline => exact Or.inr (Or.inr ⟨now, rfl, honline⟩)
  | deliver targets topic payload msgQos now => exact Or.inl (by simp [touches, Handling.plain])
  | replayRetained id' messages granted now =>
      rw [touches]
      split
      · exact Or.inl (by simp [Handling.plain])
      · exact Or.inl rfl
  | acknowledge id' ack =>
      rw [touches]
      split
      · cases ack <;> exact Or.inl rfl
      · exact Or.inl rfl
  | detach id' generation =>
      rw [touches]
      split <;> exact Or.inl rfl
  | expire id' generation =>
      rw [touches]
      split <;> exact Or.inl rfl
  | send id' packets =>
      rw [touches]
      split <;> exact Or.inl rfl
  | _ => exact Or.inl rfl

namespace Hub

/-- From one hub to another, the sessions that were there got these handlings, and those
that are new are fresh. -/
structure Touched (h h' : Hub) (touches : ClientId → Session → List Handling) : Prop where
  handled : ∀ id s, h.sessions.byId.lookup id = some s →
    ∃ t, s.handleAll h.retry (touches id s) = some t ∧
      ∀ s', h'.sessions.byId.lookup id = some s' → t.Alike s'
  fresh : ∀ id s', h.sessions.byId.lookup id = none → h'.sessions.byId.lookup id = some s' →
    h.nextId ≤ id ∧ s' = Session.new s'.clientId (some []) s'.expirySecs s'.generation
  retry : h'.retry = h.retry

variable {h h₁ h' : Hub} {touches : ClientId → Session → List Handling}

/-- A section that leaves the sessions alone touches none. -/
theorem touched_of_sessions (hsame : h'.sessions.byId = h.sessions.byId)
    (hretry : h'.retry = h.retry)
    (hnone : ∀ id s, h.sessions.byId.lookup id = some s → touches id s = []) :
    Touched h h' touches where
  handled id s hs := by
    refine ⟨s, by rw [hnone id s hs]; rfl, fun s' hs' => ?_⟩
    rw [hsame, hs] at hs'
    cases hs'
    exact .refl s
  fresh id s' hnew hs' := by
    rw [hsame, hnew] at hs'
    cases hs'
  retry := hretry

/-- A section about one session touches that one. -/
theorem touched_set {id : ClientId} {s s' t : Session} (hs : h.sessions.byId.lookup id = some s)
    (hbyId : h'.sessions.byId = (h.setSession id s').sessions.byId) (hretry : h'.retry = h.retry)
    (hhandle : s.handleAll h.retry (touches id s) = some t) (halike : t.Alike s')
    (hothers : ∀ i u, i ≠ id → touches i u = []) : Touched h h' touches where
  handled i u hu := by
    by_cases hi : i = id
    · subst hi
      rw [hs] at hu
      cases hu
      refine ⟨t, hhandle, fun s₁ hs₁ => ?_⟩
      rw [hbyId, lookup_setSession hs, if_pos rfl] at hs₁
      cases hs₁
      exact halike
    · refine ⟨u, by rw [hothers i u hi]; rfl, fun s₁ hs₁ => ?_⟩
      rw [hbyId, lookup_setSession hs, if_neg hi, hu] at hs₁
      cases hs₁
      exact .refl u
  fresh i u hnew hu := by
    rw [hbyId, lookup_setSession hs] at hu
    split at hu
    next heq => rw [heq, hs] at hnew; cases hnew
    next => rw [hnew] at hu; cases hu
  retry := hretry

/-- Sessions that go do not matter. -/
theorem Touched.erase (htouched : Touched h h₁ touches) {id : ClientId}
    (hbyId : h'.sessions.byId = h₁.sessions.byId.erase id) (hretry : h'.retry = h₁.retry) :
    Touched h h' touches := by
  have hlookup : ∀ i s, h'.sessions.byId.lookup i = some s →
      h₁.sessions.byId.lookup i = some s := by
    intro i s hs
    rw [hbyId, AssocMap.lookup_erase] at hs
    split at hs
    · cases hs
    · exact hs
  refine ⟨fun i s hs => ?_, fun i s hnew hs => htouched.fresh i s hnew (hlookup i s hs),
    hretry.trans htouched.retry⟩
  obtain ⟨t, ht, halike⟩ := htouched.handled i s hs
  exact ⟨t, ht, fun s' hs' => halike s' (hlookup i s' hs')⟩

theorem Touched.register (htouched : Touched h h₁ touches) (hnext : h.nextId = h₁.nextId)
    (hbelow : h.sessions.byId.lookup h.nextId = none) (clientId : String)
    (expirySecs generation : Nat) :
    Touched h (h₁.register clientId expirySecs generation) touches := by
  refine ⟨fun i s hs => ?_, fun i s hnew hs => ?_, htouched.retry⟩
  · obtain ⟨t, ht, halike⟩ := htouched.handled i s hs
    refine ⟨t, ht, fun s' hs' => ?_⟩
    simp only [Hub.register, AssocMap.lookup_insert, ← hnext] at hs'
    split at hs'
    next heq => rw [heq, hbelow] at hs; cases hs
    next => exact halike s' hs'
  · simp only [Hub.register, AssocMap.lookup_insert, ← hnext] at hs
    split at hs
    next heq =>
      cases hs
      exact ⟨Nat.le_of_eq heq.symm, rfl⟩
    next => exact htouched.fresh i s hnew hs

theorem Touched.persistMeta (htouched : Touched h h₁ touches) (clientId : String)
    (expirySecs : Nat) : Touched h (h₁.persistMeta clientId expirySecs) touches := by
  unfold Hub.persistMeta
  split <;> exact ⟨htouched.handled, htouched.fresh, htouched.retry⟩

/-! ## The sections -/

/-- A resumed session gets its new channel and then the whole queue; the one of a clean
start is gone. -/
theorem touched_connect (hbelow : h.sessions.byId.lookup h.nextId = none) {clientId : String}
    {cleanStart : Bool} {expirySecs now : Nat} {c : Connected}
    (hconnect : h.connect clientId cleanStart expirySecs now = some (c, h')) :
    Touched h h' fun id s => (Section.connect clientId cleanStart expirySecs now).touches h id s := by
  rcases connect_cases hconnect with
    ⟨hnone, -, rfl⟩ | ⟨id, -, hclean, -, rfl⟩ | ⟨id, s, hid, hclean, hs, -, rfl⟩
  · have hbump : Touched h h.bumpGeneration fun id s =>
        (Section.connect clientId cleanStart expirySecs now).touches h id s :=
      touched_of_sessions rfl rfl fun _ _ _ => by simp [Section.touches, hnone]
    exact (hbump.register rfl hbelow _ _ _).persistMeta _ _
  · have hbump : Touched h h.bumpGeneration fun id s =>
        (Section.connect clientId cleanStart expirySecs now).touches h id s :=
      touched_of_sessions rfl rfl fun _ _ _ => by simp [Section.touches, hclean]
    have hdropped : Touched h ((h.bumpGeneration.dropSession id).forgetPersisted clientId)
        fun id s => (Section.connect clientId cleanStart expirySecs now).touches h id s :=
      hbump.erase rfl rfl
    exact (hdropped.register rfl hbelow _ _ _).persistMeta _ _
  · have hresumed : s.handleAll h.retry
        ((Section.connect clientId cleanStart expirySecs now).touches h id s) =
          some (({ s with tx := some [] } : Session).retransmit now h.retry) := by
      rw [Section.touches, if_pos ⟨hid, hclean⟩]
      rfl
    have hothers : ∀ i u, i ≠ id →
        (Section.connect clientId cleanStart expirySecs now).touches h i u = [] := by
      intro i u hi
      rw [Section.touches, if_neg]
      rintro ⟨hsame, -⟩
      rw [hid] at hsame
      exact hi (Option.some.inj hsame).symm
    refine Touched.persistMeta ?_ _ _
    exact touched_set hs rfl rfl hresumed rfl hothers

theorem retry_discard (h : Hub) (id : ClientId) : (h.discard id).retry = h.retry := by
  unfold discard
  cases h.sessions.byId.lookup id <;> rfl

/-- A detached session is touched, or gone. -/
theorem touched_detach (h : Hub) (id : ClientId) (generation : Nat) :
    Touched h (h.detach id generation) fun i s => (Section.detach id generation).touches h i s := by
  rcases h.detach_cases id generation with ⟨heq, hstale⟩ | ⟨s, hs, hgeneration, hleft⟩
  · -- a connection that was taken over, or whose session is gone
    rw [heq]
    refine touched_of_sessions rfl rfl fun i s hs => ?_
    rw [Section.touches, if_neg]
    rintro ⟨rfl, hgeneration⟩
    exact hstale s hs hgeneration
  · have hcall : s.handleAll h.retry ((Section.detach id generation).touches h id s) =
        some { s with tx := none } := by
      rw [Section.touches, if_pos ⟨rfl, hgeneration⟩]
      rfl
    have hoffline : Touched h (h.setSession id { s with tx := none })
        fun i s => (Section.detach id generation).touches h i s := by
      refine touched_set hs rfl rfl hcall (.refl _) ?_
      intro i u hi
      rw [Section.touches, if_neg fun h => hi h.1.symm]
    rcases hleft with ⟨-, heq⟩ | ⟨-, timers, heq⟩
    · rw [heq]
      exact hoffline.erase (byId_discard _ id) (retry_discard _ id)
    · rw [heq]
      exact ⟨hoffline.handled, hoffline.fresh, hoffline.retry⟩

theorem touched_expire (h : Hub) (id : ClientId) (generation : Nat) :
    Touched h (h.expire id generation).2 fun i s =>
      (Section.expire id generation).touches h i s := by
  rcases h.expire_cases id generation with ⟨heq, hkept⟩ | ⟨s, hs, hexpired, heq⟩
  · rw [heq]
    refine touched_of_sessions rfl rfl fun i s hs => ?_
    rw [Section.touches, if_neg]
    rintro ⟨rfl, hexpired⟩
    exact hkept s hs hexpired
  · have hdrain : s.handleAll h.retry ((Section.expire id generation).touches h id s) =
        some s.drainUndelivered.1 := by
      rw [Section.touches, if_pos ⟨rfl, hexpired⟩]
      rfl
    have hdrained : Touched h (h.setSession id s.drainUndelivered.1)
        fun i s => (Section.expire id generation).touches h i s := by
      refine touched_set hs rfl rfl hdrain (.refl _) ?_
      intro i u hi
      rw [Section.touches, if_neg fun h => hi h.1.symm]
    rw [heq]
    exact hdrained.erase (byId_discard _ id) (retry_discard _ id)

/-- The deliveries of a fan-out to one session, in order. -/
theorem handleAll_deliverAll {topic : String} {payload : Bytes} {msgQos : QoS} {now : Nat}
    {targets : List (ClientId × QoS)} {f f' : Fanout}
    (hdeliver : targets.foldlM (deliverTo topic payload msgQos now) f = some f') :
    f'.hub.retry = f.hub.retry ∧ (∀ id, f.hub.sessions.byId.lookup id = none →
        f'.hub.sessions.byId.lookup id = none) ∧
      ∀ id s, f.hub.sessions.byId.lookup id = some s →
        ∃ t, f'.hub.sessions.byId.lookup id = some t ∧ s.handleAll f.hub.retry
          ((targets.filter fun t => t.1 = id).map fun t =>
            .call (.deliver topic payload (min msgQos t.2) false now)) = some t := by
  induction targets generalizing f with
  | nil =>
      cases hdeliver
      exact ⟨rfl, fun _ h => h, fun _ s hs => ⟨s, hs, rfl⟩⟩
  | cons target rest ih =>
      rw [List.foldlM_cons] at hdeliver
      obtain ⟨f₁, hfirst, hrest⟩ := Option.bind_eq_some_iff.mp hdeliver
      obtain ⟨hretry, hnone, hall⟩ := ih hrest
      unfold deliverTo at hfirst
      split at hfirst
      next hmissing =>
        -- no session under this handle, nothing is delivered
        cases hfirst
        refine ⟨hretry, hnone, fun id s hs => ?_⟩
        obtain ⟨t, ht, hrun⟩ := hall id s hs
        refine ⟨t, ht, ?_⟩
        rw [List.filter_cons_of_neg]
        · exact hrun
        · simp only [decide_eq_true_eq]
          rintro rfl
          rw [hmissing] at hs
          cases hs
      next s₀ hs₀ =>
        obtain ⟨s₁, hs₁, heq⟩ := Option.bind_eq_some_iff.mp hfirst
        cases heq
        refine ⟨hretry, fun id hid => hnone id ?_, fun id s hs => ?_⟩
        · rw [lookup_setSession hs₀, if_neg, hid]
          rintro rfl
          rw [hs₀] at hid
          cases hid
        · by_cases htarget : target.1 = id
          · subst htarget
            rw [hs₀] at hs
            cases hs
            obtain ⟨t, ht, hrun⟩ := hall target.1 s₁ (by rw [lookup_setSession hs₀, if_pos rfl])
            refine ⟨t, ht, ?_⟩
            rw [List.filter_cons_of_pos (by simp), List.map_cons]
            exact Session.handleAll_cons (Session.handle_deliver hs₁) hrun
          · obtain ⟨t, ht, hrun⟩ := hall id s (by
              rw [lookup_setSession hs₀, if_neg (Ne.symm htarget), hs])
            refine ⟨t, ht, ?_⟩
            rw [List.filter_cons_of_neg (by simpa using htarget)]
            exact hrun

/-- Each target is touched once for each time it is selected. -/
theorem touched_deliver {targets : List (ClientId × QoS)} {topic : String} {payload : Bytes}
    {msgQos : QoS} {now : Nat} {f : Fanout}
    (hdeliver : h.deliverAll targets topic payload msgQos now = some f) :
    Touched h f.hub fun id s =>
      (Section.deliver targets topic payload msgQos now).touches h id s := by
  obtain ⟨hretry, hnone, hall⟩ := handleAll_deliverAll hdeliver
  refine ⟨fun id s hs => ?_, fun id s' hid hs' => ?_, hretry⟩
  · obtain ⟨t, ht, hrun⟩ := hall id s hs
    refine ⟨t, hrun, fun s' hs' => ?_⟩
    rw [ht] at hs'
    cases hs'
    exact .refl t
  · rw [hnone id hid] at hs'
    cases hs'

theorem handleAll_deliverMessages {granted : QoS} {now : Nat} {cfg : RetryConfig}
    {messages : List Message} {s t : Session}
    (hdeliver : deliverMessages granted now cfg messages s = some t) :
    s.handleAll cfg (messages.map fun m =>
      .call (.deliver m.topic m.payload (min m.qos granted) true now)) = some t := by
  induction messages generalizing s with
  | nil => exact hdeliver
  | cons msg rest ih =>
      obtain ⟨s₁, hfirst, hrest⟩ := Option.bind_eq_some_iff.mp hdeliver
      exact Session.handleAll_cons (Session.handle_deliver hfirst) (ih hrest)

theorem touched_replayRetained {id : ClientId} {messages : List Message} {granted : QoS}
    {now : Nat} {snapshot : Option (String × Bytes)}
    (hreplay : h.replayRetained id messages granted now = some (snapshot, h')) :
    Touched h h' fun i s => (Section.replayRetained id messages granted now).touches h i s := by
  unfold replayRetained at hreplay
  split at hreplay
  next hnone =>
    cases hreplay
    refine touched_of_sessions rfl rfl fun i s hs => ?_
    rw [Section.touches, if_neg]
    rintro rfl
    rw [hnone] at hs
    cases hs
  next s hs =>
    obtain ⟨t, ht, heq⟩ := Option.bind_eq_some_iff.mp hreplay
    cases heq
    have hrun : s.handleAll h.retry
        ((Section.replayRetained id messages granted now).touches h id s) = some t := by
      rw [Section.touches, if_pos rfl]
      exact handleAll_deliverMessages ht
    refine touched_set hs rfl rfl hrun (.refl t) ?_
    intro i u hi
    rw [Section.touches, if_neg (Ne.symm hi)]

/-- The timer touches online sessions only. -/
theorem touched_tick (h : Hub) (now : Nat) :
    Touched h (h.tickAll now).2.2 fun id s => (Section.tick now).touches h id s := by
  refine ⟨fun id s hs => ⟨(h.tickSession now s).1, ?_, fun s' hs' => ?_⟩,
    fun id s' hnew hs' => ?_, rfl⟩
  · rw [tickSession, Section.touches]
    split
    · rfl
    · exact Session.handleAll_single rfl
  · simp only [tickAll, AssocMap.lookup_mapVal, hs, Option.map_some, Option.some.injEq] at hs'
    rw [hs']
    exact .refl s'
  · simp only [tickAll, AssocMap.lookup_mapVal, hnew, Option.map_none, reduceCtorEq] at hs'

/-- A section that writes back the session under one handle. -/
theorem touched_update (id : ClientId) (f : Session → Session)
    (hh' : h' = match h.sessions.byId.lookup id with
      | none => h
      | some s => h.setSession id (f s))
    (hown : ∀ s : Session, ∃ t, s.handleAll h.retry (touches id s) = some t ∧ t.Alike (f s))
    (hothers : ∀ i u, i ≠ id → touches i u = []) : Touched h h' touches := by
  cases hs : h.sessions.byId.lookup id with
  | none =>
      rw [hs] at hh'
      subst hh'
      refine touched_of_sessions rfl rfl fun i s hi => hothers i s ?_
      rintro rfl
      rw [hs] at hi
      cases hi
  | some s =>
      rw [hs] at hh'
      subst hh'
      obtain ⟨t, ht, halike⟩ := hown s
      exact touched_set hs rfl rfl ht halike hothers

theorem Touched.of_same {h₀ : Hub} (htouched : Touched h₁ h₀ touches)
    (hsessions : h₁.sessions = h.sessions) (hnext : h₁.nextId = h.nextId)
    (hretry : h₁.retry = h.retry) (hsame : h'.sessions = h₀.sessions) (hretry' : h'.retry = h₀.retry) :
    Touched h h' touches := by
  obtain ⟨hhandled, hfresh, hkept⟩ := htouched
  rw [hsessions, hretry] at hhandled
  rw [hsessions, hnext] at hfresh
  refine ⟨?_, ?_, hretry'.trans (hkept.trans hretry)⟩
  · rw [hsame]
    exact hhandled
  · rw [hsame]
    exact hfresh

theorem retry_writeAll (h : Hub) (snapshots : List (String × Bytes)) :
    (h.writeAll snapshots).retry = h.retry := by
  induction snapshots generalizing h with
  | nil => rfl
  | cons snapshot rest ih => exact ih (h.writeInflight snapshot)

theorem announce_eq (h : Hub) (topic : String) (payload : Bytes) (qos : QoS) (retain : Bool)
    (ts : Nat) : (h.announce topic payload qos retain ts).nextId = h.nextId ∧
      (h.announce topic payload qos retain ts).retry = h.retry := by
  unfold announce journal
  cases retain with
  | true => simp only [if_true]; split <;> exact ⟨rfl, rfl⟩
  | false => simp only [Bool.false_eq_true, if_false]; split <;> exact ⟨rfl, rfl⟩

/-- A publish touches the sessions that the topic is routed to. -/
theorem touched_publish {topic : String} {payload : Bytes} {msgQos : QoS} {retain : Bool}
    {clock : Clock} {n : Nat}
    (hpublish : h.publish topic payload msgQos retain clock = some (n, h')) :
    Touched h h' fun id s =>
      (Section.deliver (h.router.route topic).1 topic payload msgQos clock.now).touches h id s := by
  rw [publish, fanOut_eq] at hpublish
  obtain ⟨f, hf, heq⟩ := Option.map_eq_some_iff.mp hpublish
  cases heq
  obtain ⟨hnext, hretry⟩ := h.announce_eq topic payload msgQos retain clock.ts
  have htargets : ((h.announce topic payload msgQos retain clock.ts).routeTopic topic).1 =
      (h.router.route topic).1 := by simp only [routeTopic, router_announce]
  rw [htargets] at hf
  exact (touched_deliver hf).of_same (sessions_announce ..) hnext hretry (sessions_writeAll ..)
    (retry_writeAll ..)

/-- Every section does to every session what its touches say. -/
theorem touched_act (hbelow : h.sessions.byId.lookup h.nextId = none) {a : Section}
    (hact : h.act a = some h') : Touched h h' fun id s => a.touches h id s := by
  cases a with
  | connect clientId cleanStart expirySecs now =>
      obtain ⟨⟨c, h₁⟩, hconnect, rfl⟩ := Option.map_eq_some_iff.mp hact
      exact touched_connect hbelow hconnect
  | detach id generation =>
      cases hact
      exact touched_detach h id generation
  | expire id generation =>
      cases hact
      exact touched_expire h id generation
  | deliver targets topic payload msgQos now =>
      obtain ⟨f, hf, rfl⟩ := Option.map_eq_some_iff.mp hact
      exact touched_deliver hf
  | replayRetained id messages granted now =>
      obtain ⟨⟨snapshot, h₁⟩, hreplay, rfl⟩ := Option.map_eq_some_iff.mp hact
      exact touched_replayRetained hreplay
  | tick now =>
      cases hact
      exact touched_tick h now
  | acknowledge id ack =>
      cases hact
      refine touched_update id ack.apply ?_ (fun s => ?_) fun i u hi => ?_
      · unfold acknowledge
        cases h.sessions.byId.lookup id <;> rfl
      · refine ⟨ack.apply s, ?_, .refl _⟩
        rw [Section.touches, if_pos rfl]
        exact Session.handleAll_single (ack.handle h.retry s)
      · rw [Section.touches, if_neg (Ne.symm hi)]
  | qos2Seen id pid =>
      cases hact
      refine touched_update id
        (fun s => { s with incomingQos2 := insert pid s.incomingQos2 }) ?_
        (fun s => ⟨s, rfl, rfl⟩) fun i u hi => rfl
      unfold inboundQos2Seen
      cases h.sessions.byId.lookup id <;> rfl
  | qos2Release id pid =>
      cases hact
      refine touched_update id
        (fun s => { s with incomingQos2 := s.incomingQos2.erase pid }) ?_
        (fun s => ⟨s, rfl, rfl⟩) fun i u hi => rfl
      unfold inboundQos2Release
      cases h.sessions.byId.lookup id <;> rfl
  | send id packets =>
      cases hact
      refine touched_update id (fun s => packets.foldl Session.send s) ?_ (fun s => ?_)
        fun i u hi => ?_
      · unfold sendAll
        cases h.sessions.byId.lookup id <;> rfl
      · refine ⟨packets.foldl Session.send s, ?_, .refl _⟩
        rw [Section.touches, if_pos rfl]
        exact Session.handleAll_single rfl
      · rw [Section.touches, if_neg (Ne.symm hi)]
  | work =>
      obtain ⟨d, d', -, -, rfl⟩ := exists_of_work hact
      exact touched_of_sessions rfl rfl fun _ _ _ => rfl
  | _ =>
      cases hact
      exact touched_of_sessions rfl rfl fun _ _ _ => rfl

end Hub

end Relay
