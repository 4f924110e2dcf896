import Relay.Foundation.LastWrite
import Relay.Server.Desk
import Relay.Server.EachSession
import Relay.Server.Fanout
import Relay.Server.Startup

/-! # Inbound QoS 2 messages are routed once

The set of identifiers that makes a repeated PUBLISH known belongs to the session, so
it does not matter on which connection of the session the packets come, or what else
the broker does in between. A PUBLISH is routed if and only if no PUBLISH with its
identifier came since the session began or the identifier was last released.
-/

namespace Relay

/-! ## The sets of identifiers -/

namespace Session

/-- Deliveries go the other way and leave the inbound identifiers alone. -/
theorem incomingQos2_deliver {s s' : Session} {topic : String} {payload : Bytes} {qos : QoS}
    {retain : Bool} {now : Nat} {cfg : RetryConfig}
    (hdeliver : s.deliver topic payload qos retain now cfg = some s') :
    s'.incomingQos2 = s.incomingQos2 := by
  rw [deliver_eq] at hdeliver
  split at hdeliver
  · cases hdeliver
  · cases hdeliver
    rfl

theorem incomingQos2_deliverMessages {granted : QoS} {now : Nat} {cfg : RetryConfig}
    {messages : List Message} {s s' : Session}
    (hdeliver : Hub.deliverMessages granted now cfg messages s = some s') :
    s'.incomingQos2 = s.incomingQos2 := by
  induction messages generalizing s with
  | nil =>
      cases hdeliver
      rfl
  | cons msg rest ih =>
      obtain ⟨s₁, hfirst, hrest⟩ := Option.bind_eq_some_iff.mp hdeliver
      exact (ih hrest).trans (incomingQos2_deliver hfirst)

theorem incomingQos2_ack (s : Session) (ack : Ack) :
    (ack.apply s).incomingQos2 = s.incomingQos2 := by
  obtain ⟨queue, packets, happly⟩ := ack.exists_apply s
  rw [happly]

theorem incomingQos2_foldl_send (packets : List Packet) (s : Session) :
    (packets.foldl send s).incomingQos2 = s.incomingQos2 := by
  rw [foldl_send]

end Session

namespace Hub

/-- Sessions that stay keep their set of inbound identifiers; new ones have an empty
one and a new handle. -/
def KeepsSeen (h h' : Hub) : Prop :=
  ∀ id s', h'.sessions.byId.lookup id = some s' →
    (∃ s, h.sessions.byId.lookup id = some s ∧ s'.incomingQos2 = s.incomingQos2) ∨
      h.nextId ≤ id ∧ s'.incomingQos2 = ∅

theorem keepsSeen_of_sessions {h h' : Hub} (hsame : h'.sessions.byId = h.sessions.byId) :
    KeepsSeen h h' :=
  fun _ s' hs' => Or.inl ⟨s', hsame ▸ hs', rfl⟩

/-- Writing a session back keeps the identifiers if the session has the same. -/
theorem keepsSeen_set {h : Hub} {id : ClientId} {s s' : Session}
    (hs : h.sessions.byId.lookup id = some s) (hsame : s'.incomingQos2 = s.incomingQos2) :
    KeepsSeen h (h.setSession id s') := by
  intro i t ht
  rw [lookup_setSession hs] at ht
  split at ht
  next heq =>
    cases ht
    exact Or.inl ⟨s, heq ▸ hs, hsame⟩
  · exact Or.inl ⟨t, ht, rfl⟩

/-- Handles are not given out twice, so a new session is new for both steps. -/
theorem KeepsSeen.trans {h₁ h₂ h₃ : Hub} (h₁₂ : KeepsSeen h₁ h₂) (h₂₃ : KeepsSeen h₂ h₃)
    (hnext : h₁.nextId ≤ h₂.nextId) : KeepsSeen h₁ h₃ := by
  intro id s₃ hs₃
  rcases h₂₃ id s₃ hs₃ with ⟨s₂, hs₂, hsame⟩ | ⟨hid, hempty⟩
  · rw [hsame]
    exact h₁₂ id s₂ hs₂
  · exact Or.inr ⟨hnext.trans hid, hempty⟩

/-- Sessions that go do not matter. -/
theorem KeepsSeen.erase {h h₁ h' : Hub} (hkeeps : KeepsSeen h h₁) {id : ClientId}
    (hbyId : h'.sessions.byId = h₁.sessions.byId.erase id) : KeepsSeen h h' := by
  intro i t ht
  rw [hbyId, AssocMap.lookup_erase] at ht
  split at ht
  · cases ht
  · exact hkeeps i t ht

theorem KeepsSeen.persistMeta {h h₁ : Hub} (hkeeps : KeepsSeen h h₁) (clientId : String)
    (expirySecs : Nat) : KeepsSeen h (h₁.persistMeta clientId expirySecs) := by
  unfold Hub.persistMeta
  split <;> exact hkeeps

theorem KeepsSeen.register {h h₁ : Hub} (hkeeps : KeepsSeen h h₁) (hnext : h.nextId ≤ h₁.nextId)
    (clientId : String) (expirySecs generation : Nat) :
    KeepsSeen h (h₁.register clientId expirySecs generation) := by
  intro i t ht
  simp only [Hub.register, AssocMap.lookup_insert] at ht
  split at ht
  next heq =>
    cases ht
    exact Or.inr ⟨heq ▸ hnext, rfl⟩
  · exact hkeeps i t ht

/-- A resumed session keeps its inbound identifiers; a fresh one has none. -/
theorem keepsSeen_connect {h h' : Hub} {clientId : String} {cleanStart : Bool}
    {expirySecs now : Nat} {c : Connected}
    (hconnect : h.connect clientId cleanStart expirySecs now = some (c, h')) : KeepsSeen h h' := by
  have hbump : KeepsSeen h h.bumpGeneration := keepsSeen_of_sessions rfl
  rcases connect_cases hconnect with
    ⟨-, -, rfl⟩ | ⟨id, -, -, -, rfl⟩ | ⟨id, s, -, -, hs, -, rfl⟩
  · exact (hbump.register (Nat.le_refl _) _ _ _).persistMeta _ _
  · have hdropped : KeepsSeen h ((h.bumpGeneration.dropSession id).forgetPersisted clientId) :=
      hbump.erase rfl
    exact (hdropped.register (Nat.le_refl _) _ _ _).persistMeta _ _
  · have hs' : h.bumpGeneration.sessions.byId.lookup id = some s := hs
    refine KeepsSeen.persistMeta (hbump.trans (keepsSeen_set hs' ?_) (Nat.le_refl _)) _ _
    rfl

theorem keepsSeen_detach (h : Hub) (id : ClientId) (generation : Nat) :
    KeepsSeen h (h.detach id generation) := by
  rcases h.detach_cases id generation with ⟨heq, -⟩ | ⟨s, hs, -, ⟨-, heq⟩ | ⟨-, timers, heq⟩⟩
  · rw [heq]
    exact keepsSeen_of_sessions rfl
  · have hoffline : KeepsSeen h (h.setSession id { s with tx := none }) := keepsSeen_set hs rfl
    rw [heq]
    exact hoffline.erase (byId_discard _ id)
  · have hoffline : KeepsSeen h (h.setSession id { s with tx := none }) := keepsSeen_set hs rfl
    rw [heq]
    exact hoffline

theorem keepsSeen_expire (h : Hub) (id : ClientId) (generation : Nat) :
    KeepsSeen h (h.expire id generation).2 := by
  rcases h.expire_cases id generation with ⟨heq, -⟩ | ⟨s, hs, -, heq⟩
  · rw [heq]
    exact keepsSeen_of_sessions rfl
  · rw [heq]
    refine KeepsSeen.erase (keepsSeen_set hs ?_) (byId_discard _ id)
    rfl

theorem keepsSeen_deliverAll {h : Hub} {targets : List (ClientId × QoS)} {topic : String}
    {payload : Bytes} {msgQos : QoS} {now : Nat} {f : Fanout}
    (hdeliver : h.deliverAll targets topic payload msgQos now = some f) : KeepsSeen h f.hub := by
  have hfold : ∀ (targets : List (ClientId × QoS)) (f f' : Fanout), KeepsSeen h f.hub →
      h.nextId ≤ f.hub.nextId →
      targets.foldlM (deliverTo topic payload msgQos now) f = some f' → KeepsSeen h f'.hub := by
    intro targets
    induction targets with
    | nil =>
        intro f f' hkeeps _ hf
        cases hf
        exact hkeeps
    | cons target rest ih =>
        intro f f' hkeeps hnext hf
        rw [List.foldlM_cons] at hf
        obtain ⟨f₁, hfirst, hrest⟩ := Option.bind_eq_some_iff.mp hf
        unfold deliverTo at hfirst
        split at hfirst
        · cases hfirst
          exact ih f f' hkeeps hnext hrest
        next s hs =>
          obtain ⟨s', hs', heq⟩ := Option.bind_eq_some_iff.mp hfirst
          cases heq
          refine ih _ f' ?_ ?_ hrest
          · exact hkeeps.trans (keepsSeen_set hs (Session.incomingQos2_deliver hs')) hnext
          · exact hnext
  exact hfold targets ⟨0, [], h⟩ f (keepsSeen_of_sessions rfl) (Nat.le_refl _) hdeliver

theorem keepsSeen_tickAll (h : Hub) (now : Nat) : KeepsSeen h (h.tickAll now).2.2 := by
  intro id s' hs'
  simp only [tickAll, AssocMap.lookup_mapVal] at hs'
  obtain ⟨s, hs, rfl⟩ := Option.map_eq_some_iff.mp hs'
  refine Or.inl ⟨s, hs, ?_⟩
  unfold tickSession
  split <;> rfl

/-- No section of the hub touches the sets but those of the QoS 2 handshake. -/
theorem keepsSeen_act {h h' : Hub} {a : Section} (hdedups : a.dedups = false)
    (hact : h.act a = some h') : KeepsSeen h h' := by
  have hsame : KeepsSeen h h := keepsSeen_of_sessions rfl
  cases a with
  | connect clientId cleanStart expirySecs now =>
      obtain ⟨⟨c, h₁⟩, hconnect, rfl⟩ := Option.map_eq_some_iff.mp hact
      exact keepsSeen_connect hconnect
  | detach id generation =>
      cases hact
      exact keepsSeen_detach h id generation
  | expire id generation =>
      cases hact
      exact keepsSeen_expire h id generation
  | deliver targets topic payload msgQos now =>
      obtain ⟨f, hf, rfl⟩ := Option.map_eq_some_iff.mp hact
      exact keepsSeen_deliverAll hf
  | replayRetained id messages granted now =>
      obtain ⟨⟨snapshot, h₁⟩, hreplay, rfl⟩ := Option.map_eq_some_iff.mp hact
      unfold replayRetained at hreplay
      split at hreplay
      · cases hreplay
        exact hsame
      next s hs =>
        obtain ⟨s', hs', heq⟩ := Option.bind_eq_some_iff.mp hreplay
        cases heq
        exact keepsSeen_set hs (Session.incomingQos2_deliverMessages hs')
  | tick now =>
      cases hact
      exact keepsSeen_tickAll h now
  | acknowledge id ack =>
      cases hact
      unfold acknowledge
      split
      · exact hsame
      next s hs => exact keepsSeen_set hs (s.incomingQos2_ack ack)
  | qos2Seen => cases hdedups
  | qos2Release => cases hdedups
  | send id packets =>
      cases hact
      unfold sendAll
      split
      · exact hsame
      next s hs => exact keepsSeen_set hs (s.incomingQos2_foldl_send packets)
  | work =>
      obtain ⟨d, d', -, -, rfl⟩ := exists_of_work hact
      exact hsame
  | _ =>
      cases hact
      exact keepsSeen_of_sessions rfl

end Hub

/-! ## Identifiers in use -/

def Entry.mark (id : ClientId) (pid : Nat) (e : Entry) : Option (Option Unit) :=
  match e.call with
  | .inboundQos2Seen i p => if e.present ∧ i = id ∧ p = pid then some (some ()) else none
  | .inboundQos2Release i p => if e.present ∧ i = id ∧ p = pid then some none else none
  | _ => none

/-- A PUBLISH of the session came with this identifier, and no PUBREL since. -/
def Opened (log : List Entry) (id : ClientId) (pid : Nat) : Prop :=
  LastWrite.value (Entry.mark id pid) log = some ()

/-- The last call on an identifier decides. -/
theorem opened_concat (log : List Entry) (e : Entry) (id : ClientId) (pid : Nat) :
    Opened (log ++ [e]) id pid ↔
      e.mark id pid = some (some ()) ∨ e.mark id pid = none ∧ Opened log id pid := by
  rw [Opened, LastWrite.value_concat]
  rcases e.mark id pid with _ | _ | _ <;> simp [Opened]

namespace Desk

/-- The sets of the sessions are the identifiers in use, and every verdict was in
accordance with them. -/
structure Counted (d : Desk) : Prop where
  consistent : d.hub.Consistent
  known : ∀ e ∈ d.log, ∀ id pid, e.mark id pid ≠ none → id < d.hub.nextId
  sets : ∀ id s, d.hub.sessions.byId.lookup id = some s →
    ∀ pid, pid ∈ s.incomingQos2 ↔ Opened d.log id pid
  first : ∀ before after t id pid (fresh : Bool),
    d.log = before ++ ⟨t, .inboundQos2Seen id pid, fresh, true⟩ :: after →
    (fresh = true ↔ ¬ Opened before id pid)

variable {d d' : Desk}

/-- What is in use was put in use by a PUBLISH. -/
theorem Counted.lt_of_opened (hd : d.Counted) {id : ClientId} {pid : Nat}
    (hopened : Opened d.log id pid) : id < d.hub.nextId := by
  obtain ⟨e, he, hmark⟩ := LastWrite.exists_of_value hopened
  refine hd.known e he id pid ?_
  rw [hmark]
  exact Option.some_ne_none _

/-- The verdicts up to the last call, and the one of the last call. -/
theorem first_concat {log : List Entry} {e : Entry}
    (hlog : ∀ before after t id pid (fresh : Bool),
      log = before ++ ⟨t, .inboundQos2Seen id pid, fresh, true⟩ :: after →
      (fresh = true ↔ ¬ Opened before id pid))
    (hlast : ∀ t id pid (fresh : Bool), e = ⟨t, .inboundQos2Seen id pid, fresh, true⟩ →
      (fresh = true ↔ ¬ Opened log id pid))
    (before after : List Entry) (t : Option Nat) (id : ClientId) (pid : Nat) (fresh : Bool)
    (hsplit : log ++ [e] = before ++ ⟨t, .inboundQos2Seen id pid, fresh, true⟩ :: after) :
    fresh = true ↔ ¬ Opened before id pid := by
  rcases List.eq_nil_or_concat after with rfl | ⟨rest, last, rfl⟩
  · obtain ⟨rfl, hentry⟩ := List.append_inj' hsplit rfl
    exact hlast t id pid fresh (List.singleton_inj.mp hentry)
  · rw [List.concat_eq_append, ← List.cons_append, ← List.append_assoc] at hsplit
    exact hlog before rest t id pid fresh (List.append_inj' hsplit rfl).1

/-- A step that puts no identifier in use and clears none. -/
theorem Counted.quiet (hd : d.Counted) (hcons : d'.hub.Consistent)
    (hnext : d.hub.nextId ≤ d'.hub.nextId) (hkeeps : Hub.KeepsSeen d.hub d'.hub)
    (hlog : d'.log = d.log ∨ ∃ e, d'.log = d.log ++ [e] ∧ ∀ id pid, e.mark id pid = none) :
    d'.Counted := by
  have hopened : ∀ id pid, Opened d'.log id pid ↔ Opened d.log id pid := by
    intro id pid
    rcases hlog with hlog | ⟨e, hlog, hnone⟩
    · rw [hlog]
    · rw [hlog, opened_concat, hnone]
      simp
  refine ⟨hcons, ?_, ?_, ?_⟩
  · intro e he id pid hmark
    refine (hd.known e ?_ id pid hmark).trans_le hnext
    rcases hlog with hlog | ⟨e', hlog, hnone⟩
    · exact hlog ▸ he
    · rw [hlog] at he
      refine (List.mem_append.mp he).resolve_right fun hlast => hmark ?_
      rw [List.mem_singleton.mp hlast, hnone]
  · intro id s' hs' pid
    rw [hopened]
    rcases hkeeps id s' hs' with ⟨s, hs, hsame⟩ | ⟨hid, hempty⟩
    · rw [hsame]
      exact hd.sets id s hs pid
    · -- a new handle: nothing was seen for it
      rw [hempty]
      refine iff_of_false (Finset.notMem_empty pid) fun hold => ?_
      exact absurd (hd.lt_of_opened hold) (Nat.not_lt.mpr hid)
  · rcases hlog with hlog | ⟨e, hlog, hnone⟩
    · rw [hlog]
      exact hd.first
    · rw [hlog]
      refine first_concat hd.first ?_
      rintro t id pid fresh rfl
      have hmark := hnone id pid
      simp [Entry.mark] at hmark

/-- A call that puts an identifier of a session in use, or clears it. -/
theorem Counted.mark (hd : d.Counted) {id : ClientId} {s s' : Session} {e : Entry} (pid : Nat)
    (value : Option Unit) (hs : d.hub.sessions.byId.lookup id = some s)
    (hclient : s'.clientId = s.clientId) (hhub : d'.hub = d.hub.setSession id s')
    (hlog : d'.log = d.log ++ [e])
    (hmark : ∀ i p, e.mark i p = if id = i ∧ pid = p then some value else none)
    (hset : ∀ p, p ∈ s'.incomingQos2 ↔ if p = pid then value = some () else p ∈ s.incomingQos2)
    (hlast : ∀ t i p (fresh : Bool), e = ⟨t, .inboundQos2Seen i p, fresh, true⟩ →
      (fresh = true ↔ ¬ Opened d.log i p)) : d'.Counted := by
  have hcons := hd.consistent.effect (Hub.quiet_setSession hs hclient).effect
  have hopened : ∀ i p, Opened d'.log i p ↔
      if id = i ∧ pid = p then value = some () else Opened d.log i p := by
    intro i p
    rw [hlog, opened_concat, hmark]
    split <;> simp
  refine ⟨hhub ▸ hcons, ?_, ?_, ?_⟩
  · intro e' he' i p hmark'
    rw [hhub]
    rw [hlog] at he'
    rcases List.mem_append.mp he' with hold | hnew
    · exact hd.known e' hold i p hmark'
    · rw [List.mem_singleton.mp hnew, hmark] at hmark'
      split at hmark'
      next heq =>
        rw [← heq.1]
        exact hd.consistent.below s.clientId id (Hub.clientOf_eq_some_iff.mpr ⟨s, hs, rfl⟩)
      next => exact absurd rfl hmark'
  · intro i t ht p
    rw [hhub, Hub.lookup_setSession hs] at ht
    rw [hopened]
    split at ht
    next heq =>
      cases ht
      rw [hset, heq]
      simp only [true_and, eq_comm (a := pid)]
      split
      · rfl
      · exact hd.sets id s hs p
    next hne =>
      rw [if_neg fun heq => hne heq.1.symm]
      exact hd.sets i t ht p
  · rw [hlog]
    exact first_concat hd.first hlast

/-- A call whose entry marks nothing and that is not performed at once. -/
theorem Counted.given (hd : d.Counted) {t : Option Nat} {call : Call} {result : call.Result}
    {present : Bool} (hhub : d'.hub = d.hub) (hlog : d'.log = d.log ++ [⟨t, call, result, present⟩])
    (hnone : ∀ id pid, Entry.mark id pid ⟨t, call, result, present⟩ = none) : d'.Counted := by
  refine hd.quiet (hhub ▸ hd.consistent) ?_ (Hub.keepsSeen_of_sessions ?_)
    (Or.inr ⟨_, hlog, hnone⟩)
  · rw [hhub]
  · rw [hhub]

/-- The verdict is right: the identifier was in use exactly if the set had it. -/
theorem Counted.seen (hd : d.Counted) {t : Option Nat} {id : ClientId} {pid : Nat}
    (hhub : d'.hub = (d.hub.inboundQos2Seen id pid).2)
    (hlog : d'.log = d.log ++ [⟨t, .inboundQos2Seen id pid, (d.hub.inboundQos2Seen id pid).1,
      d.hub.knows (.inboundQos2Seen id pid)⟩]) : d'.Counted := by
  cases hs : d.hub.sessions.byId.lookup id with
  | none =>
      have hsame : d'.hub = d.hub := by rw [hhub, Hub.inboundQos2Seen, hs]
      refine hd.given hsame hlog fun i p => ?_
      simp [Entry.mark, Hub.knows, hs]
  | some s =>
      have hseen : d.hub.inboundQos2Seen id pid = (decide (pid ∉ s.incomingQos2),
          d.hub.setSession id { s with incomingQos2 := insert pid s.incomingQos2 }) := by
        simp only [Hub.inboundQos2Seen, hs]
      have hknows : d.hub.knows (.inboundQos2Seen id pid) = true := by simp [Hub.knows, hs]
      rw [hknows, hseen] at hlog
      rw [hseen] at hhub
      refine hd.mark pid (some ()) hs ?_ hhub hlog ?_ ?_ ?_
      · rfl
      · intro i p
        simp [Entry.mark]
      · intro p
        rw [Finset.mem_insert]
        split
        next heq => simp [heq]
        next hne => simp [hne]
      · rintro t' i p fresh ⟨⟩
        rw [decide_eq_true_iff, hd.sets id s hs pid]

/-- A PUBREL takes the identifier out of the set. -/
theorem Counted.release (hd : d.Counted) {t : Option Nat} {id : ClientId} {pid : Nat}
    (hhub : d'.hub = d.hub.inboundQos2Release id pid)
    (hlog : d'.log = d.log ++ [⟨t, .inboundQos2Release id pid, (),
      d.hub.knows (.inboundQos2Release id pid)⟩]) : d'.Counted := by
  cases hs : d.hub.sessions.byId.lookup id with
  | none =>
      have hsame : d'.hub = d.hub := by rw [hhub, Hub.inboundQos2Release, hs]
      refine hd.given hsame hlog fun i p => ?_
      simp [Entry.mark, Hub.knows, hs]
  | some s =>
      have hrelease : d.hub.inboundQos2Release id pid =
          d.hub.setSession id { s with incomingQos2 := s.incomingQos2.erase pid } := by
        simp only [Hub.inboundQos2Release, hs]
      rw [hrelease] at hhub
      refine hd.mark pid none hs ?_ hhub hlog ?_ ?_ ?_
      · rfl
      · intro i p
        simp [Entry.mark, Hub.knows, hs]
      · intro p
        rw [Finset.mem_erase]
        split
        next heq => simp [heq]
        next hne => simp [hne]
      · rintro t' i p fresh ⟨⟩

/-- Other calls and sections leave the sets alone. -/
theorem Counted.step {cfg : HandlerConfig} (hd : d.Counted) {st : DeskStep}
    (hstep : d.step cfg st = some d') : d'.Counted := by
  cases moved_step hstep with
  | quiet hub log =>
      refine hd.quiet (hub ▸ hd.consistent) ?_ (Hub.keepsSeen_of_sessions ?_) (Or.inl log)
      · rw [hub]
      · rw [hub]
  | env a dedups hub log =>
      have heffect := Hub.act_effect hub
      exact hd.quiet (hd.consistent.effect heffect) heffect.nextId_le
        (Hub.keepsSeen_act dedups hub) (Or.inl log)
  | call ticket call result now given answer log =>
      cases call with
      | connect clientId cleanStart expirySecs =>
          have heffect := Hub.effect_connect answer
          exact hd.quiet (hd.consistent.effect heffect) heffect.nextId_le
            (Hub.keepsSeen_connect answer) (Or.inr ⟨_, log, fun _ _ => rfl⟩)
      | inboundQos2Seen id pid =>
          obtain ⟨rfl, hhub⟩ := Prod.mk.inj (Option.some.inj answer)
          exact hd.seen hhub.symm log
      | inboundQos2Release id pid =>
          obtain ⟨-, hhub⟩ := Prod.mk.inj (Option.some.inj answer)
          exact hd.release hhub.symm log
      | _ =>
          obtain ⟨-, hhub⟩ := Prod.mk.inj (Option.some.inj answer)
          exact hd.given hhub.symm log fun _ _ => rfl

theorem incomingQos2_new {storage : Option Storage} {retry : RetryConfig} {eventLogMax now : Nat}
    {id : ClientId} {s : Session}
    (hs : (Hub.new storage retry eventLogMax now).sessions.byId.lookup id = some s) :
    s.incomingQos2 = ∅ := by
  cases storage with
  | none =>
      rw [show (Hub.new none retry eventLogMax now).sessions.byId.lookup id = none from
        AList.lookup_empty id] at hs
      cases hs
  | some st =>
      rw [(Hub.rebuilt_new st retry eventLogMax now).byId] at hs
      obtain ⟨ps, -, rfl⟩ := Option.map_eq_some_iff.mp hs
      unfold Hub.restoreSession
      dsimp only
      split <;> rfl

/-- No identifier is in use after a restart: the sets are not stored. -/
theorem counted_start (storage : Option Storage) (retry : RetryConfig) (eventLogMax now : Nat) :
    (start (Hub.new storage retry eventLogMax now)).Counted := by
  refine ⟨Hub.consistent_new storage retry eventLogMax now, ?_, ?_, ?_⟩
  · intro e he
    cases he
  · intro id s hs pid
    rw [incomingQos2_new hs]
    exact iff_of_false (Finset.notMem_empty pid) fun hopened => nomatch hopened
  · intro before after t id pid fresh hsplit
    simp [start] at hsplit

/-! ## The calls for a PUBLISH and for a PUBREL -/

/-- A QoS 2 PUBLISH of the session that its connection may route. -/
structure Routable (conn : Conn) (p : Publish) (id : ClientId) (pid : Nat) : Prop where
  session : conn.sessionId = some id
  qos : p.qos = .exactlyOnce
  packetId : p.packetId = some pid
  outside : Text.strip "$replay/" p.topic = none
  authorized : conn.access.canPublish p.topic = true

/-- Check the identifier, route the message if it is new, and answer with a PUBREC. -/
def publishCalls (p : Publish) (id : ClientId) (pid : Nat) (fresh : Bool) (routed : Nat)
    (written : Bool) : List ((call : Call) × call.Result) :=
  ⟨.inboundQos2Seen id pid, fresh⟩ ::
    ((if fresh then [⟨Conn.publishCall p, routed⟩] else []) ++
      [⟨.send (.publishReceived pid .success), written⟩])

def releaseCalls (session : Option ClientId) (pid : Nat) (written : Bool) :
    List ((call : Call) × call.Result) :=
  (session.map fun id => ⟨.inboundQos2Release id pid, ()⟩).toList ++
    [⟨.send (.publishComplete pid), written⟩]

/-- The calls of a reply. -/
theorem leads_reply {conn : Conn} {r : Reply} {made : List ((call : Call) × call.Result)}
    {rest : Handler (Flow × Conn)} (hleads : (conn.reply r).Leads made rest) :
    ∃ written : Bool, made <+: [⟨.send r, written⟩] ∧
      ((∃ out, rest = .done out) → made = [⟨.send r, written⟩]) := by
  cases hleads with
  | refl => exact ⟨true, List.nil_prefix, fun ⟨out, hout⟩ => nomatch hout⟩
  | step written hrest =>
      cases hrest with
      | refl => exact ⟨written, List.prefix_refl _, fun _ => rfl⟩

/-- A PUBLISH is handled by these calls in this order, whatever they are answered. -/
theorem leads_publish {cfg : HandlerConfig} {conn : Conn} {p : Publish} {id : ClientId} {pid : Nat}
    (hp : Routable conn p id pid) {made : List ((call : Call) × call.Result)}
    {rest : Handler (Flow × Conn)}
    (hleads : (conn.onInput cfg (.packet (.publish p))).Leads made rest) :
    ∃ fresh routed written, made <+: publishCalls p id pid fresh routed written ∧
      ((∃ out, rest = .done out) → made = publishCalls p id pid fresh routed written) := by
  have htext : conn.onInput cfg (.packet (.publish p)) =
      .call (.inboundQos2Seen id pid) fun fresh : Bool =>
        if fresh then .call (Conn.publishCall p) fun _ => conn.reply (.publishReceived pid .success)
        else conn.reply (.publishReceived pid .success) := by
    simp only [Conn.onInput, Conn.onPacket, Conn.onPublish, hp.session, hp.outside, hp.authorized,
      if_true, Conn.onAuthorized, hp.qos, hp.packetId]
    refine congrArg _ (funext fun fresh => ?_)
    cases fresh <;> rfl
  rw [htext] at hleads
  cases hleads with
  | refl => exact ⟨true, 0, true, List.nil_prefix, fun ⟨out, hout⟩ => nomatch hout⟩
  | step fresh hrest =>
      cases fresh with
      | false =>
          obtain ⟨written, hpart, hwhole⟩ := leads_reply hrest
          exact ⟨false, 0, written, List.prefix_cons_inj _ |>.mpr hpart, fun hdone =>
            congrArg _ (hwhole hdone)⟩
      | true =>
          cases hrest with
          | refl =>
              exact ⟨true, 0, true, List.prefix_cons_inj _ |>.mpr List.nil_prefix,
                fun ⟨out, hout⟩ => nomatch hout⟩
          | step routed hreply =>
              obtain ⟨written, hpart, hwhole⟩ := leads_reply hreply
              refine ⟨true, routed, written, ?_, fun hdone => ?_⟩
              · exact List.prefix_cons_inj _ |>.mpr (List.prefix_cons_inj _ |>.mpr hpart)
              · rw [hwhole hdone]
                rfl

theorem leads_release {cfg : HandlerConfig} {conn : Conn} {pid : Nat}
    {made : List ((call : Call) × call.Result)} {rest : Handler (Flow × Conn)}
    (hleads : (conn.onInput cfg (.packet (.publishRelease pid))).Leads made rest) :
    ∃ written, made <+: releaseCalls conn.sessionId pid written ∧
      ((∃ out, rest = .done out) → made = releaseCalls conn.sessionId pid written) := by
  simp only [Conn.onInput, Conn.onPacket, Conn.onRelease] at hleads
  cases hsession : conn.sessionId with
  | none =>
      rw [hsession] at hleads
      exact leads_reply hleads
  | some id =>
      rw [hsession] at hleads
      cases hleads with
      | refl => exact ⟨true, List.nil_prefix, fun ⟨out, hout⟩ => nomatch hout⟩
      | step _ hreply =>
          obtain ⟨written, hpart, hwhole⟩ := leads_reply hreply
          exact ⟨written, List.prefix_cons_inj _ |>.mpr hpart, fun hdone =>
            congrArg _ (hwhole hdone)⟩

/-! ## Runs -/

/-- A PUBLISH is routed if and only if its identifier was not in use, whichever
connection of the session put it in use, and it is answered in any case, as is a
PUBREL. -/
structure ExactlyOnce (d : Desk) : Prop where
  /-- Calls for a PUBLISH, all of them once the handler is through with it. -/
  publish : ∀ t c conn p id pid, d.inputs[t]? = some (c, conn, .packet (.publish p)) →
    Routable conn p id pid →
    ∃ fresh routed written, d.callsOf t <+: publishCalls p id pid fresh routed written ∧
      (d.Over t → d.callsOf t = publishCalls p id pid fresh routed written)
  /-- It is new if none of the session came with its identifier since the last PUBREL. -/
  first : ∀ before after t id pid (fresh : Bool),
    d.log = before ++ ⟨t, .inboundQos2Seen id pid, fresh, true⟩ :: after →
    (fresh = true ↔ ¬ Opened before id pid)
  release : ∀ t c conn pid, d.inputs[t]? = some (c, conn, .packet (.publishRelease pid)) →
    ∃ written, d.callsOf t <+: releaseCalls conn.sessionId pid written ∧
      (d.Over t → d.callsOf t = releaseCalls conn.sessionId pid written)

theorem exactlyOnce_of_counted {cfg : HandlerConfig} (horderly : d.Orderly cfg)
    (hcounted : d.Counted) : d.ExactlyOnce where
  publish t c conn p id pid hinput hp := by
    obtain ⟨rest, hleads, hover⟩ := horderly.leads hinput
    obtain ⟨fresh, routed, written, hpart, hwhole⟩ := leads_publish hp hleads
    exact ⟨fresh, routed, written, hpart, fun h => hwhole (hover h)⟩
  first := hcounted.first
  release t c conn pid hinput := by
    obtain ⟨rest, hleads, hover⟩ := horderly.leads hinput
    obtain ⟨written, hpart, hwhole⟩ := leads_release hleads
    exact ⟨written, hpart, fun h => hwhole (hover h)⟩

/-- In every run of a broker, with any number of connections. -/
theorem exactlyOnce_always (cfg : HandlerConfig) (storage : Option Storage) (retry : RetryConfig)
    (eventLogMax now : Nat) (steps : List DeskStep) :
    Machine.Always (step cfg) ExactlyOnce (start (Hub.new storage retry eventLogMax now)) steps := by
  refine Machine.always_of_invariant (fun d => d.Orderly cfg ∧ d.Counted) ?_ ?_ ?_
  · exact fun d st d' hd hstep => ⟨hd.1.step hstep, hd.2.step hstep⟩
  · exact fun d hd => exactlyOnce_of_counted hd.1 hd.2
  · exact ⟨orderly_start cfg _, counted_start storage retry eventLogMax now⟩

end Desk

end Relay
