import Relay.Server.Sections

/-! # Who a session belongs to

The part of a session that decides which calls may touch it: its client, its
expiry interval, the generation of the connect that attached it last, and whether
a connection is attached now. Deliveries, acknowledgements, retries and the worker
leave it alone; only connects, detaches and expiries change it.
-/

namespace Relay

structure Holder where
  clientId : String
  expirySecs : Nat
  generation : Nat
  online : Bool

namespace Session

def holder (s : Session) : Holder := ⟨s.clientId, s.expirySecs, s.generation, s.tx.isSome⟩

/-- A delivery concerns the queue, not who is attached. -/
theorem holder_deliver {s s' : Session} {topic : String} {payload : Bytes} {qos : QoS}
    {retain : Bool} {now : Nat} {cfg : RetryConfig}
    (hdeliver : s.deliver topic payload qos retain now cfg = some s') : s'.holder = s.holder := by
  rw [deliver_eq] at hdeliver
  split at hdeliver
  · cases hdeliver
  · cases hdeliver
    simp [holder, received]

theorem holder_deliverMessages {granted : QoS} {now : Nat} {cfg : RetryConfig}
    {messages : List Message} {s s' : Session}
    (hdeliver : Hub.deliverMessages granted now cfg messages s = some s') :
    s'.holder = s.holder := by
  induction messages generalizing s with
  | nil =>
      cases hdeliver
      rfl
  | cons msg rest ih =>
      obtain ⟨s₁, hfirst, hrest⟩ := Option.bind_eq_some_iff.mp hdeliver
      exact (ih hrest).trans (holder_deliver hfirst)

/-- An acknowledgement concerns the queue only. -/
theorem holder_ack (s : Session) (ack : Ack) : (ack.apply s).holder = s.holder := by
  obtain ⟨queue, packets, happly⟩ := ack.exists_apply s
  simp [happly, holder]

theorem holder_foldl_send (packets : List Packet) (s : Session) :
    (packets.foldl send s).holder = s.holder := by
  simp [foldl_send, holder]

end Session

/-- Neither does a retry tick change who is attached. -/
theorem Hub.holder_tickSession (h : Hub) (now : Nat) (s : Session) :
    (h.tickSession now s).1.holder = s.holder := by
  unfold tickSession
  split
  · rfl
  · simp [Session.holder, Session.tickRetries]

def SessionTable.holder (t : SessionTable) (id : ClientId) : Option Holder :=
  (t.byId.lookup id).map Session.holder

/-! ## Sections that leave every session with its holder -/

namespace Hub

/-- Every session has its holder, and the counters, the index and the router are
as they were. -/
structure Still (h h' : Hub) : Prop where
  holder : h'.sessions.holder = h.sessions.holder
  generation : h'.sessions.generation = h.sessions.generation
  idOf : h'.sessions.idOf = h.sessions.idOf
  nextId : h'.nextId = h.nextId
  router : h'.router = h.router

theorem Still.refl (h : Hub) : Still h h := ⟨rfl, rfl, rfl, rfl, rfl⟩

theorem Still.trans {h₁ h₂ h₃ : Hub} (h₁₂ : Still h₁ h₂) (h₂₃ : Still h₂ h₃) : Still h₁ h₃ :=
  ⟨h₂₃.holder.trans h₁₂.holder, h₂₃.generation.trans h₁₂.generation, h₂₃.idOf.trans h₁₂.idOf,
    h₂₃.nextId.trans h₁₂.nextId, h₂₃.router.trans h₁₂.router⟩

theorem still_enqueue (h : Hub) (op : PersistOp) : Still h (h.enqueue op) :=
  ⟨rfl, rfl, rfl, rfl, rfl⟩

theorem still_persistMeta (h : Hub) (clientId : String) (expirySecs : Nat) :
    Still h (h.persistMeta clientId expirySecs) := by
  unfold persistMeta
  split <;> exact still_enqueue h _

theorem holder_setSession (h : Hub) {id : ClientId} {s : Session}
    (hlookup : h.sessions.byId.lookup id = some s) (s' : Session) :
    (h.setSession id s').sessions.holder =
      Function.update h.sessions.holder id (some s'.holder) := by
  funext i
  simp only [SessionTable.holder, setSession, AssocMap.lookup_modify, Function.update_apply]
  split
  next heq =>
    rw [heq, hlookup]
    rfl
  next => rfl

/-- Writing a session back is invisible if its holder is the same. -/
theorem still_setSession {h : Hub} {id : ClientId} {s s' : Session}
    (hlookup : h.sessions.byId.lookup id = some s) (hholder : s'.holder = s.holder) :
    Still h (h.setSession id s') := by
  refine ⟨?_, rfl, rfl, rfl, rfl⟩
  rw [holder_setSession h hlookup, hholder]
  refine Function.update_eq_self_iff.mpr ?_
  rw [SessionTable.holder, hlookup, Option.map_some]

theorem still_deliverTo {topic : String} {payload : Bytes} {msgQos : QoS} {now : Nat}
    {f f' : Fanout} {target : ClientId × QoS}
    (hdeliver : deliverTo topic payload msgQos now f target = some f') : Still f.hub f'.hub := by
  unfold deliverTo at hdeliver
  split at hdeliver
  · cases hdeliver
    exact .refl _
  next s hlookup =>
    obtain ⟨s', hs', heq⟩ := Option.bind_eq_some_iff.mp hdeliver
    cases heq
    exact still_setSession hlookup (Session.holder_deliver hs')

/-- The delivery loop leaves every attachment alone, by induction on the targets. -/
theorem still_deliverAll {h : Hub} {targets : List (ClientId × QoS)} {topic : String}
    {payload : Bytes} {msgQos : QoS} {now : Nat} {f : Fanout}
    (hdeliver : h.deliverAll targets topic payload msgQos now = some f) : Still h f.hub := by
  have hfold : ∀ (targets : List (ClientId × QoS)) (f f' : Fanout),
      targets.foldlM (deliverTo topic payload msgQos now) f = some f' → Still f.hub f'.hub := by
    intro targets
    induction targets with
    | nil =>
        intro f f' hf
        cases hf
        exact .refl _
    | cons target rest ih =>
        intro f f' hf
        rw [List.foldlM_cons] at hf
        obtain ⟨f₁, hfirst, hrest⟩ := Option.bind_eq_some_iff.mp hf
        exact (still_deliverTo hfirst).trans (ih f₁ f' hrest)
  exact hfold targets _ f hdeliver

theorem still_replayRetained {h h' : Hub} {id : ClientId} {messages : List Message} {granted : QoS}
    {now : Nat} {snapshot : Option (String × Bytes)}
    (hreplay : h.replayRetained id messages granted now = some (snapshot, h')) : Still h h' := by
  unfold replayRetained at hreplay
  split at hreplay
  · cases hreplay
    exact .refl _
  next s hlookup =>
    obtain ⟨s', hs', heq⟩ := Option.bind_eq_some_iff.mp hreplay
    cases heq
    exact still_setSession hlookup (Session.holder_deliverMessages hs')

/-- A tick of all sessions leaves every attachment alone. -/
theorem still_tickAll (h : Hub) (now : Nat) : Still h (h.tickAll now).2.2 := by
  refine ⟨?_, rfl, rfl, rfl, rfl⟩
  funext i
  simp only [SessionTable.holder, tickAll, AssocMap.lookup_mapVal, Option.map_map]
  congr 1
  funext s
  exact h.holder_tickSession now s

theorem still_acknowledge (h : Hub) (id : ClientId) (ack : Ack) :
    Still h (h.acknowledge id ack.apply).2 := by
  unfold acknowledge
  split
  · exact .refl _
  next s hlookup => exact still_setSession hlookup (s.holder_ack ack)

theorem still_qos2Seen (h : Hub) (id : ClientId) (pid : Nat) :
    Still h (h.inboundQos2Seen id pid).2 := by
  unfold inboundQos2Seen
  split
  next s hlookup => exact still_setSession hlookup rfl
  · exact .refl _

theorem still_qos2Release (h : Hub) (id : ClientId) (pid : Nat) :
    Still h (h.inboundQos2Release id pid) := by
  unfold inboundQos2Release
  split
  next s hlookup => exact still_setSession hlookup rfl
  · exact .refl _

theorem still_sendAll (h : Hub) (id : ClientId) (packets : List Packet) :
    Still h (h.sendAll id packets) := by
  unfold sendAll
  split
  · exact .refl _
  next s hlookup => exact still_setSession hlookup (Session.holder_foldl_send packets s)

theorem still_work {h h' : Hub} (hwork : h.work = some h') : Still h h' := by
  obtain ⟨d, d', -, -, rfl⟩ := exists_of_work hwork
  exact ⟨rfl, rfl, rfl, rfl, rfl⟩

structure Unmoved (h h' : Hub) : Prop where
  holder : h'.sessions.holder = h.sessions.holder
  generation : h'.sessions.generation = h.sessions.generation

theorem Unmoved.trans {h₁ h₂ h₃ : Hub} (h₁₂ : Unmoved h₁ h₂) (h₂₃ : Unmoved h₂ h₃) :
    Unmoved h₁ h₃ :=
  ⟨h₂₃.holder.trans h₁₂.holder, h₂₃.generation.trans h₁₂.generation⟩

theorem Still.unmoved {h h' : Hub} (hstill : Still h h') : Unmoved h h' :=
  ⟨hstill.holder, hstill.generation⟩

end Hub

def Section.moves : Section → Bool
  | .connect .. => true
  | .detach .. => true
  | .expire .. => true
  | _ => false

namespace Hub

/-- Only connecting, detaching and expiring change who is attached. -/
theorem unmoved_act {h h' : Hub} {a : Section} (hact : h.act a = some h')
    (hmoves : a.moves = false) : Unmoved h h' := by
  cases a with
  | connect => cases hmoves
  | detach => cases hmoves
  | expire => cases hmoves
  | deliver targets topic payload msgQos now =>
      obtain ⟨f, hf, rfl⟩ := Option.map_eq_some_iff.mp hact
      exact (still_deliverAll hf).unmoved
  | replayRetained id messages granted now =>
      obtain ⟨⟨snapshot, h''⟩, hreplay, rfl⟩ := Option.map_eq_some_iff.mp hact
      exact (still_replayRetained hreplay).unmoved
  | tick now =>
      cases hact
      exact (still_tickAll h now).unmoved
  | acknowledge id ack =>
      cases hact
      exact (still_acknowledge h id ack).unmoved
  | qos2Seen id pid =>
      cases hact
      exact (still_qos2Seen h id pid).unmoved
  | qos2Release id pid =>
      cases hact
      exact (still_qos2Release h id pid).unmoved
  | send id packets =>
      cases hact
      exact (still_sendAll h id packets).unmoved
  | work => exact (still_work hact).unmoved
  | _ =>
      -- the router, the retained messages and the queue hold no session
      cases hact
      exact ⟨rfl, rfl⟩

end Hub

/-! ## Detaching and expiring -/

namespace Holder

def detached (generation : Nat) (a : Holder) : Option Holder :=
  if a.generation = generation then
    if a.expirySecs = 0 then none else some { a with online := false }
  else some a

def expired (generation : Nat) (a : Holder) : Option Holder :=
  if a.generation = generation ∧ a.online = false then none else some a

/-- A detach that keeps the session keeps its client and its generation. -/
theorem of_detached {generation : Nat} {a a' : Holder} (hleft : a.detached generation = some a') :
    a'.clientId = a.clientId ∧ a'.generation = a.generation := by
  unfold detached at hleft
  split at hleft
  · split at hleft
    · cases hleft
    · cases hleft
      exact ⟨rfl, rfl⟩
  · cases hleft
    exact ⟨rfl, rfl⟩

/-- An expiry that keeps the session changes nothing about it. -/
theorem of_expired {generation : Nat} {a a' : Holder} (hleft : a.expired generation = some a') :
    a' = a := by
  unfold expired at hleft
  split at hleft
  · cases hleft
  · exact (Option.some.inj hleft).symm

/-- An expiry removes a session only offline and at the generation it was scheduled for.
-/
theorem of_expired_eq_none {generation : Nat} {a : Holder} (hgone : a.expired generation = none) :
    a.generation = generation ∧ a.online = false := by
  unfold expired at hgone
  split at hgone
  next hidle => exact hidle
  · cases hgone

end Holder

namespace Hub

theorem holder_discard (h : Hub) (id : ClientId) :
    (h.discard id).sessions.holder = Function.update h.sessions.holder id none := by
  funext i
  have hbyId : (h.discard id).sessions.byId = h.sessions.byId.erase id := by
    unfold discard
    split <;> rfl
  rw [SessionTable.holder, hbyId, AssocMap.lookup_erase, Function.update_apply]
  split <;> rfl

/-- A detach is about one session. -/
theorem holder_detach (h : Hub) (id : ClientId) (generation : Nat) :
    (h.detach id generation).sessions.holder = Function.update h.sessions.holder id
      ((h.sessions.holder id).bind (Holder.detached generation)) := by
  rcases h.detach_cases id generation with
    ⟨heq, hstale⟩ | ⟨s, hs, hgeneration, ⟨hexpiry, heq⟩ | ⟨hexpiry, timers, heq⟩⟩
  · have hleft : (h.sessions.holder id).bind (Holder.detached generation) =
        h.sessions.holder id := by
      unfold SessionTable.holder
      cases hs : h.sessions.byId.lookup id with
      | none => rfl
      | some s => exact if_neg (hstale s hs)
    rw [heq, hleft, Function.update_eq_self]
  · have hholder : h.sessions.holder id = some s.holder := congrArg (Option.map _) hs
    have hleft : Holder.detached generation s.holder = none := by
      simp [Holder.detached, Session.holder, hgeneration, hexpiry]
    rw [heq, hholder, Option.bind_some, hleft, holder_discard, holder_setSession h hs,
      Function.update_idem]
  · have hholder : h.sessions.holder id = some s.holder := congrArg (Option.map _) hs
    have hleft : Holder.detached generation s.holder =
        some (Session.holder { s with tx := none }) := by
      simp [Holder.detached, Session.holder, hgeneration, hexpiry]
    rw [heq, hholder, Option.bind_some, hleft, ← holder_setSession h hs]

/-- An expiry is about one session. -/
theorem holder_expire (h : Hub) (id : ClientId) (generation : Nat) :
    (h.expire id generation).2.sessions.holder = Function.update h.sessions.holder id
      ((h.sessions.holder id).bind (Holder.expired generation)) := by
  have hiff : ∀ s : Session, (s.holder.generation = generation ∧ s.holder.online = false) ↔
      s.generation = generation ∧ s.tx = none := by
    simp [Session.holder]
  rcases h.expire_cases id generation with ⟨heq, hkept⟩ | ⟨s, hs, hidle, heq⟩
  · have hleft : (h.sessions.holder id).bind (Holder.expired generation) =
        h.sessions.holder id := by
      unfold SessionTable.holder
      cases hs : h.sessions.byId.lookup id with
      | none => rfl
      | some s => exact if_neg (hkept s hs ∘ (hiff s).mp)
    rw [heq, hleft, Function.update_eq_self]
  · have hholder : h.sessions.holder id = some s.holder := congrArg (Option.map _) hs
    rw [heq, hholder, Option.bind_some, holder_discard, holder_setSession h hs,
      Function.update_idem, Holder.expired, if_pos ((hiff s).mpr hidle)]

theorem generation_discard (h : Hub) (id : ClientId) :
    (h.discard id).sessions.generation = h.sessions.generation := by
  unfold discard
  split <;> rfl

theorem generation_detach (h : Hub) (id : ClientId) (generation : Nat) :
    (h.detach id generation).sessions.generation = h.sessions.generation := by
  rcases h.detach_cases id generation with ⟨heq, -⟩ | ⟨s, -, -, ⟨-, heq⟩ | ⟨-, timers, heq⟩⟩
  · rw [heq]
  · rw [heq]
    exact generation_discard _ id
  · rw [heq]
    rfl

theorem generation_expire (h : Hub) (id : ClientId) (generation : Nat) :
    (h.expire id generation).2.sessions.generation = h.sessions.generation := by
  rcases h.expire_cases id generation with ⟨heq, -⟩ | ⟨s, -, -, heq⟩
  · rw [heq]
  · rw [heq]
    exact generation_discard _ id

section Superseded

variable {h : Hub} {id : ClientId} {generation : Nat}

/-- No session is attached at this generation any more. -/
def Superseded (h : Hub) (id : ClientId) (generation : Nat) : Prop :=
  ∀ a ∈ h.sessions.holder id, a.generation ≠ generation

theorem Superseded.lookup (hstale : h.Superseded id generation) {s : Session}
    (hlookup : h.sessions.byId.lookup id = some s) : s.generation ≠ generation :=
  hstale s.holder (congrArg (Option.map _) hlookup)

/-- A late detach of an earlier connection does nothing. -/
theorem Superseded.detach (hstale : h.Superseded id generation) :
    h.detach id generation = h := by
  rcases h.detach_cases id generation with ⟨heq, -⟩ | ⟨s, hs, hgeneration, -⟩
  · exact heq
  · exact absurd hgeneration (hstale.lookup hs)

/-- A late expiry of an earlier generation does nothing. -/
theorem Superseded.expire (hstale : h.Superseded id generation) :
    h.expire id generation = ([], h) := by
  rcases h.expire_cases id generation with ⟨heq, -⟩ | ⟨s, hs, hidle, -⟩
  · exact heq
  · exact absurd hidle.1 (hstale.lookup hs)

theorem Superseded.purgeIfIdle (hstale : h.Superseded id generation) (clock : Nat → Clock) :
    h.purgeIfIdle id generation clock = some h := by
  rw [Hub.purgeIfIdle, hstale.expire]
  rfl

end Superseded

end Hub

end Relay
