import Relay.Server.Moves

/-! # QoS 2 from the session to the client's application

The handshake of a session with its client as an exchange of numbered items. The numbers
are those of the messages in the in-flight queue; the packets on the line are numbered
with the message that they were sent for.
-/

namespace Relay

open Exchange (Item Frame State)

/-! ## The exchange behind a link -/

def Inflight.item (n : Nat) : Inflight → Option (Item Nat)
  | .qos1 _ => none
  | .qos2AwaitRec p => p.packetId.map (⟨n, ·, false⟩)
  | .qos2AwaitComp pid => some ⟨n, pid, true⟩

/-- A packet of the QoS 2 handshake as a frame. -/
def frameOf : Option Nat × Packet → Option (Frame Nat)
  | (_, .publishRelease pid) => some (.release pid)
  | (some n, .publish p) => if p.qos = .exactlyOnce then p.packetId.map (.data n) else none
  | (none, .publish _) => none

def Ack.reply : Ack → Option (Exchange.Reply Nat)
  | .puback _ => none
  | .pubrec pid => some (.received pid)
  | .pubcomp pid => some (.complete pid)

def Message.isQos2 (m : Message) : Bool := m.qos = .exactlyOnce

theorem Message.takesId_of_isQos2 {m : Message} (hqos : m.isQos2 = true) : m.takesId = true := by
  rw [isQos2, decide_eq_true_eq] at hqos
  simp [takesId, hqos]

/-- Numbers for what a link has only the contents of. -/
structure Numbering where
  roster : Roster InflightEntry
  line : List (Option Nat × Packet)
  offered : List (Nat × Message)
  log : List (Nat × Message)
  dropped : List Nat

namespace Numbering

variable (v : Numbering)

def state (l : Link) : State Nat where
  queue := v.roster.items.filterMap fun x => x.2.state.item x.1
  line := v.line.filterMap frameOf
  replies := l.client.replies.filterMap Ack.reply
  late := l.client.late.filterMap Ack.reply
  held := l.client.held
  log := v.log.map Prod.fst
  offered := v.offered.map Prod.fst
  dropped := v.dropped
  online := l.session.tx.isSome

/-- What becomes of a message when something is done to the session. -/
def fate (cfg : RetryConfig) (s : Session) (hd : Handling) (x : Nat × InflightEntry) :
    Option InflightEntry × Trace :=
  hd.fate cfg s.tx.isSome (hd.taken v.roster.items) x.1 x.2

def sent (cfg : RetryConfig) (s : Session) (hd : Handling) : List (Option Nat × Packet) :=
  (v.roster.items.filterMap fun x => (v.fate cfg s hd x).2.packet.map fun packet => (some x.1, packet)) ++
    ((hd.born cfg s).bind fun b => b.2.packet.map fun packet => (some v.roster.next, packet)).toList ++
      if s.tx.isSome then (hd.others s (hd.taken v.roster.items)).map fun packet => (none, packet)
      else []

end Numbering

/-- The numbers go with the link. -/
structure Link.Numbers (l : Link) (v : Numbering) : Prop where
  queue : v.roster.items.map Prod.snd = l.session.inflight
  line : v.line.map Prod.snd = l.client.line
  offered : v.offered.map Prod.snd = l.offered.filter Message.isQos2
  log : v.log.map Prod.snd = l.client.log.filter Message.isQos2
  logged : v.log ⊆ v.offered
  below : ∀ x ∈ v.offered, x.1 < v.roster.next
  queued : ∀ n e p, (n, e) ∈ v.roster.items → e.state = .qos2AwaitRec p →
    p.qos = .exactlyOnce ∧ p.packetId ≠ none ∧ (n, p.message) ∈ v.offered
  queuedQos1 : ∀ n e p, (n, e) ∈ v.roster.items → e.state = .qos1 p → p.qos ≠ .exactlyOnce
  sent : ∀ n p, (n, .publish p) ∈ v.line → p.qos = .exactlyOnce →
    ∃ m, n = some m ∧ p.packetId ≠ none ∧ (m, p.message) ∈ v.offered
  dropped : ∀ n ∈ v.dropped, ∃ msg ∈ l.dropped, (n, msg.publish.message) ∈ v.offered

namespace Numbering

variable {cfg : RetryConfig} {l : Link} {v : Numbering} {hd : Handling} {s s' : Session}
  {dead : List DeadMsg}

theorem sent_of_offline (hoffline : s.tx = none) : v.sent cfg s hd = [] := by
  have hfate : ∀ taken n e, (hd.fate cfg false taken n e).2.packet = none := by
    intro taken n e
    cases hd with
    | call op => cases op <;> simp [Handling.fate, Trace.quiet]; split <;> rfl
    | _ => rfl
  have hborn : ((hd.born cfg s).bind fun b => b.2.packet.map fun packet =>
      (some v.roster.next, packet)) = none := by
    cases hd with
    | call op => cases op <;> simp [Handling.born, hoffline]
    | _ => rfl
  simp only [sent, fate, hoffline, Option.isSome_none, hfate, hborn, Option.map_none]
  simp

/-- Without the numbers these are the packets that the session sends, in order. -/
theorem map_snd_sent (honline : s.tx.isSome = true) : (v.sent cfg s hd).map Prod.snd =
    (v.roster.items.filterMap fun x => (v.fate cfg s hd x).2.packet) ++
      ((hd.born cfg s).bind (·.2.packet)).toList ++ hd.others s (hd.taken v.roster.items) := by
  have hitem : (fun x => Option.map Prod.snd
      ((v.fate cfg s hd x).2.packet.map fun packet => (some x.1, packet))) =
      fun x => (v.fate cfg s hd x).2.packet := by
    funext x
    cases (v.fate cfg s hd x).2.packet <;> rfl
  have hborn : (((hd.born cfg s).bind fun b => b.2.packet.map fun packet =>
      (some v.roster.next, packet)).toList.map Prod.snd) =
      ((hd.born cfg s).bind (·.2.packet)).toList := by
    cases hd.born cfg s with
    | none => rfl
    | some b => cases hpacket : b.2.packet <;> simp [hpacket]
  simp only [sent, honline, if_true, List.map_append, List.map_filterMap, hitem, hborn,
    List.map_map, Function.comp_def, List.map_id']

/-- Packets put on a channel that is kept are those sent for the messages. -/
theorem putSince_eq (hqueue : v.roster.items.map Prod.snd = s.inflight)
    (hkeeps : hd.keepsChannel = true) (hhandle : s.handle cfg hd = some (s', dead)) :
    s.putSince s' = (v.sent cfg s hd).map Prod.snd := by
  have hparts := Session.parts_of_handle hqueue v.roster.sorted hhandle
  rw [Session.putSince, hparts.channel hkeeps]
  cases htx : s.tx with
  | none => simp [sent_of_offline htx]
  | some packets =>
      rw [map_snd_sent (by rw [htx]; rfl)]
      simp [fate, htx]

def kept (v : Numbering) (cfg : RetryConfig) (s : Session) (hd : Handling) (y : Item Nat) : Bool :=
  (v.roster.items.find? (·.1 = y.number)).any fun x => (v.fate cfg s hd x).1.isSome

theorem find?_eq_of_mem {x : Nat × InflightEntry} (hx : x ∈ v.roster.items) :
    v.roster.items.find? (·.1 = x.1) = some x := by
  cases hfind : v.roster.items.find? (·.1 = x.1) with
  | none =>
      have hnot := List.find?_eq_none.mp hfind x hx
      simp at hnot
  | some y =>
      have hname : y.1 = x.1 := by simpa using List.find?_some hfind
      have hmem : (x.1, y.2) ∈ v.roster.items := hname ▸ List.mem_of_find?_eq_some hfind
      rw [Prod.ext hname (v.roster.eq_of_mem hmem hx)]

/-- The numbers after something was done to the session. -/
def after (v : Numbering) (cfg : RetryConfig) (l : Link) (hd : Handling) : Numbering where
  roster := v.roster.advance (fun n e => v.fate cfg l.session hd (n, e)) (hd.born cfg l.session)
  line := v.line ++ v.sent cfg l.session hd
  offered := v.offered ++ (hd.offer.filter Message.isQos2).toList.map (v.roster.next, ·)
  log := v.log
  dropped := v.dropped ++ ((v.state l).queue.filter fun y =>
    !(y.released || v.kept cfg l.session hd y)).map Item.number

theorem item_number {n : Nat} {state : Inflight} {y : Item Nat} (hitem : state.item n = some y) :
    y.number = n := by
  cases state with
  | qos1 p => cases hitem
  | qos2AwaitRec p =>
      obtain ⟨pid, -, rfl⟩ := Option.map_eq_some_iff.mp hitem
      rfl
  | qos2AwaitComp pid =>
      cases hitem
      rfl

end Numbering

def Handling.isHandshake : Handling → Bool
  | .call (.onPubrec _) => true
  | .call (.onPubcomp _) => true
  | _ => false

/-- Outside the handshake a message stays as it is or is given up, and is only sent
again. -/
structure Handling.Plain (e : InflightEntry) (after : Option InflightEntry) (note : Trace) : Prop where
  stays : ∀ e', after = some e' → e'.state = e.state
  leaves : after = none → ∀ pid, e.state ≠ .qos2AwaitComp pid
  packet : ∀ packet, note.packet = some packet → packet = e.state.redelivery

/-- Outside the handshake no message changes its state. -/
theorem Handling.Move.plain {cfg : RetryConfig} {online : Bool} {e : InflightEntry} {hd : Handling}
    {after : Option InflightEntry} {note : Trace} (hmove : hd.Move cfg online e after note)
    (hhandshake : hd.isHandshake = false) : Handling.Plain e after note := by
  have hpacket : ∀ packet, (if online = true then some e.state.redelivery else none) = some packet →
      packet = e.state.redelivery := by
    intro packet h
    split at h
    · exact (Option.some.inj h).symm
    · cases h
  have hnone : ∀ packet, Trace.quiet.packet = some packet → packet = e.state.redelivery := by
    intro packet h
    cases h
  cases hmove with
  | spared => exact ⟨fun e' h => by cases h; rfl, fun h => (Option.some_ne_none _ h).elim, hnone⟩
  | resent now =>
      exact ⟨fun e' h => by cases h; rfl, fun h => (Option.some_ne_none _ h).elim, hpacket⟩
  | retried now =>
      exact ⟨fun e' h => by cases h; rfl, fun h => (Option.some_ne_none _ h).elim, hpacket⟩
  | acked pid p hstate =>
      refine ⟨fun e' h => (Option.some_ne_none _ h.symm).elim, fun _ pid' h => ?_, hnone⟩
      rw [hstate] at h
      cases h
  | received pid p hstate => cases hhandshake
  | completed pid hstate => cases hhandshake
  | died now p _ hundelivered =>
      refine ⟨fun e' h => (Option.some_ne_none _ h.symm).elim, fun _ pid' h => ?_, hnone⟩
      rw [h] at hundelivered
      cases hundelivered
  | drained p hundelivered =>
      refine ⟨fun e' h => (Option.some_ne_none _ h.symm).elim, fun _ pid' h => ?_, hnone⟩
      rw [h] at hundelivered
      cases hundelivered

namespace Numbering

variable {cfg : RetryConfig} {l : Link} {v : Numbering} {hd : Handling} {s s' : Session}
  {dead : List DeadMsg}

theorem plain_fate (hhandshake : hd.isHandshake = false) (x : Nat × InflightEntry) :
    Handling.Plain x.2 (v.fate cfg s hd x).1 (v.fate cfg s hd x).2 := by
  have hmove : hd.Move cfg s.tx.isSome x.2 (v.fate cfg s hd x).1 (v.fate cfg s hd x).2 := by
    refine Handling.move_fate hd ?_
    rintro pid rfl
    cases hhandshake
  exact hmove.plain hhandshake

/-- Outside the handshake the queue only loses items. -/
theorem queue_plain (hhandshake : hd.isHandshake = false) :
    (v.roster.items.filterMap fun x => (v.fate cfg s hd x).1.bind fun e => e.state.item x.1) =
      (v.roster.items.filterMap fun x => x.2.state.item x.1).filter fun y =>
        y.released || v.kept cfg s hd y := by
  rw [List.filter_filterMap]
  refine List.filterMap_congr fun x hx => ?_
  have hplain : Handling.Plain x.2 (v.fate cfg s hd x).1 (v.fate cfg s hd x).2 :=
    plain_fate hhandshake x
  cases hitem : x.2.state.item x.1 with
  | none =>
      cases hafter : (v.fate cfg s hd x).1 with
      | none => rfl
      | some e => simp [hplain.stays e hafter, hitem]
  | some y =>
      have hkept : v.kept cfg s hd y = (v.fate cfg s hd x).1.isSome := by
        rw [kept, item_number hitem, find?_eq_of_mem hx, Option.any_some]
      cases hafter : (v.fate cfg s hd x).1 with
      | some e => simp [Option.filter, hkept, hafter, hplain.stays e hafter, hitem]
      | none =>
          have hreleased : y.released = false := by
            cases hstate : x.2.state with
            | qos1 p => rw [hstate] at hitem; cases hitem
            | qos2AwaitRec p =>
                rw [hstate] at hitem
                obtain ⟨pid, -, rfl⟩ := Option.map_eq_some_iff.mp hitem
                rfl
            | qos2AwaitComp pid => exact absurd hstate (hplain.leaves hafter pid)
          simp [Option.filter, hkept, hafter, hreleased]

/-- A message that is sent again has the frame of its item. -/
theorem frameOf_redelivery (hv : l.Numbers v) {x : Nat × InflightEntry} (hx : x ∈ v.roster.items) :
    frameOf (some x.1, x.2.state.redelivery) = (x.2.state.item x.1).map Item.frame := by
  cases hstate : x.2.state with
  | qos1 p =>
      have hqos := hv.queuedQos1 x.1 x.2 p hx hstate
      simp [frameOf, Inflight.redelivery, Inflight.item, hqos]
  | qos2AwaitRec p =>
      obtain ⟨hqos, -, -⟩ := hv.queued x.1 x.2 p hx hstate
      cases hpid : p.packetId <;>
        simp [frameOf, Inflight.redelivery, Inflight.item, hqos, hpid, Item.frame]
  | qos2AwaitComp pid => rfl

def resent (v : Numbering) (cfg : RetryConfig) (s : Session) (hd : Handling) : List (Frame Nat) :=
  (v.roster.items.filterMap fun x =>
    (v.fate cfg s hd x).2.packet.map fun packet => (some x.1, packet)).filterMap frameOf

theorem resent_of_offline (hoffline : s.tx = none) : v.resent cfg s hd = [] := by
  have hsent : v.sent cfg s hd = [] := sent_of_offline hoffline
  rw [sent, List.append_assoc, List.append_eq_nil_iff] at hsent
  rw [resent, hsent.1]
  rfl

theorem put_resent (l : Link) :
    ((v.state l).put (v.resent cfg l.session hd)).line =
      (v.state l).line ++ v.resent cfg l.session hd := by
  cases htx : l.session.tx.isSome with
  | true => exact State.line_put_of_online htx _
  | false =>
      rw [State.line_put_of_offline htx, resent_of_offline (by simpa using htx), List.append_nil]

/-- What is sent again was in the outbox already. -/
theorem resent_subset (hv : l.Numbers v) (hhandshake : hd.isHandshake = false) :
    v.resent cfg l.session hd ⊆ (v.state l).outbox := by
  intro f hf
  obtain ⟨⟨n, packet⟩, hmem, hframe⟩ := List.mem_filterMap.mp hf
  obtain ⟨x, hx, hpacket⟩ := List.mem_filterMap.mp hmem
  obtain ⟨packet', hnote, heq⟩ := Option.map_eq_some_iff.mp hpacket
  cases heq
  rw [(plain_fate hhandshake x).packet packet hnote, frameOf_redelivery hv hx] at hframe
  obtain ⟨y, hy, rfl⟩ := Option.map_eq_some_iff.mp hframe
  exact List.mem_map_of_mem (List.mem_filterMap.mpr ⟨x, hx, hy⟩)

/-- The delivered message has no part in the exchange. -/
def Aside (cfg : RetryConfig) (s : Session) (n : Nat) (hd : Handling) : Prop :=
  ∀ b, hd.born cfg s = some b → b.1.state.item n = none ∧
    ∀ packet, b.2.packet = some packet → frameOf (some n, packet) = none

/-- The queue of the exchange after something was done to the session. -/
theorem queue_after (l' : Link) : ((v.after cfg l hd).state l').queue =
    (v.roster.items.filterMap fun x => (v.fate cfg l.session hd x).1.bind fun e => e.state.item x.1) ++
      ((hd.born cfg l.session).bind fun b => b.1.state.item v.roster.next).toList := by
  have hitem : (fun x : Nat × InflightEntry =>
      ((v.fate cfg l.session hd (x.1, x.2)).1.map (x.1, ·)).bind fun y => y.2.state.item y.1) =
      fun x => (v.fate cfg l.session hd x).1.bind fun e => e.state.item x.1 := by
    funext x
    cases (v.fate cfg l.session hd x).1 <;> rfl
  simp only [state, after, Roster.advance, List.filterMap_append, List.filterMap_filterMap, hitem]
  congr 1
  cases hd.born cfg l.session with
  | none => rfl
  | some b => cases hborn : b.1.state.item v.roster.next <;> simp [hborn]

/-- The line of the exchange gains what is sent again and the new message. -/
theorem line_after (hothers : ∀ p ∈ hd.others l.session (hd.taken v.roster.items),
    frameOf (none, p) = none) (l' : Link) :
    ((v.after cfg l hd).state l').line = (v.state l).line ++ v.resent cfg l.session hd ++
      (((hd.born cfg l.session).bind fun b =>
        b.2.packet.map fun packet => (some v.roster.next, packet)).bind frameOf).toList := by
  have hnone : (if l.session.tx.isSome = true then
      (hd.others l.session (hd.taken v.roster.items)).map fun packet => ((none : Option Nat), packet)
      else []).filterMap frameOf = [] := by
    split
    · rw [List.filterMap_eq_nil_iff]
      intro x hx
      obtain ⟨p, hp, rfl⟩ := List.mem_map.mp hx
      exact hothers p hp
    · rfl
  simp only [state, after, sent, List.filterMap_append, hnone, List.append_nil, resent,
    List.append_assoc]
  congr 2
  cases (hd.born cfg l.session).bind fun b => b.2.packet.map fun packet => (some v.roster.next, packet) with
  | none => rfl
  | some x => cases hframe : frameOf x <;> simp [hframe]

/-- Outside the handshake, messages are sent again and given up. -/
theorem reaches_plain (hv : l.Numbers v) {l' : Link} (hhandshake : hd.isHandshake = false)
    (haside : Aside cfg l.session v.roster.next hd)
    (hothers : ∀ p ∈ hd.others l.session (hd.taken v.roster.items), frameOf (none, p) = none)
    (hoffer : hd.offer.filter Message.isQos2 = none)
    (honline : l'.session.tx.isSome = l.session.tx.isSome)
    (hreplies : l'.client.replies = l.client.replies) (hlate : l'.client.late = l.client.late)
    (hheld : l'.client.held = l.client.held) :
    State.Reaches (v.state l) ((v.after cfg l hd).state l') := by
  have hborn : ((hd.born cfg l.session).bind fun b => b.1.state.item v.roster.next) = none := by
    cases hb : hd.born cfg l.session with
    | none => rfl
    | some b => exact (haside b hb).1
  have hframe : ((hd.born cfg l.session).bind fun b =>
      b.2.packet.map fun packet => (some v.roster.next, packet)).bind frameOf = none := by
    cases hb : hd.born cfg l.session with
    | none => rfl
    | some b =>
        cases hpacket : b.2.packet with
        | none => simp [hpacket]
        | some packet => simpa [hpacket] using (haside b hb).2 packet hpacket
  have hstate : (v.after cfg l hd).state l' =
      ((v.state l).put (v.resent cfg l.session hd)).dropAll (v.kept cfg l.session hd) := by
    ext1
    · rw [queue_after, hborn, queue_plain hhandshake, Option.toList_none, List.append_nil]
      rfl
    · rw [line_after hothers, hframe, Option.toList_none, List.append_nil]
      exact (put_resent l).symm
    · exact congrArg (List.filterMap Ack.reply) hreplies
    · exact congrArg (List.filterMap Ack.reply) hlate
    · exact hheld
    · rfl
    · simp [state, after, hoffer, State.dropAll, State.put]
    · rfl
    · exact honline
  rw [hstate]
  exact .tail (.single (.resend _ (resent_subset hv hhandshake))) (.drop _)

/-- Nothing is given up. -/
theorem dropped_after (hkept : ∀ x ∈ v.roster.items,
    (∃ pid, x.2.state = .qos2AwaitComp pid) ∨ (v.fate cfg l.session hd x).1.isSome = true) :
    (v.after cfg l hd).dropped = v.dropped := by
  have hnone : ((v.state l).queue.filter fun y => !(y.released || v.kept cfg l.session hd y)) = [] := by
    rw [List.filter_eq_nil_iff]
    intro y hy
    obtain ⟨x, hx, hitem⟩ := List.mem_filterMap.mp hy
    rcases hkept x hx with ⟨pid, hstate⟩ | hstays
    · rw [hstate] at hitem
      cases hitem
      simp
    · have hkept : v.kept cfg l.session hd y = true := by
        rw [kept, item_number hitem, find?_eq_of_mem hx, Option.any_some, hstays]
      simp [hkept]
  rw [after, hnone, List.map_nil, List.append_nil]

/-- Every message in the queue makes one of its moves. -/
theorem move_of_mem {x : Nat × InflightEntry} (hx : x ∈ v.roster.items) :
    hd.Move cfg s.tx.isSome x.2 (v.fate cfg s hd x).1 (v.fate cfg s hd x).2 := by
  exact Handling.move_of_mem cfg _ hd hx

end Numbering

/-! ## The numbers go on -/

/-- Reading a message at another QoS is no matter of the exchange. -/
theorem Client.exists_read_of_qos (c : Client) {p : Publish}
    (hqos : p.qos ≠ .exactlyOnce) : ∃ acks : List Ack, acks.filterMap Ack.reply = [] ∧
      c.read (.publish p) = { c with log := c.log ++ [p.message], replies := c.replies ++ acks } := by
  cases hq : p.qos with
  | exactlyOnce => exact absurd hq hqos
  | atMostOnce => exact ⟨[], rfl, by simp [Client.read, hq]⟩
  | atLeastOnce =>
      cases hpid : p.packetId with
      | none => exact ⟨[], rfl, by simp [Client.read, hq, hpid]⟩
      | some pid => exact ⟨[.puback pid], rfl, by simp [Client.read, hq, hpid]⟩

namespace Link

variable {cfg : RetryConfig} {l l' : Link} {v : Numbering} {hd : Handling}

/-- What is sent is put on the line. -/
theorem Numbers.line_handle (hv : l.Numbers v) {s' : Session} {dead : List DeadMsg}
    (hattach : hd ≠ .call .attach) (hhandle : l.session.handle cfg hd = some (s', dead)) :
    (v.sent cfg l.session hd).map Prod.snd = l.session.putSince s' := by
  by_cases hkeeps : hd.keepsChannel = true
  · exact (Numbering.putSince_eq hv.queue hkeeps hhandle).symm
  · obtain rfl : hd = .call .detach := by
      cases hd with
      | call op =>
          cases op with
          | attach => exact absurd rfl hattach
          | detach => rfl
          | _ => exact absurd rfl hkeeps
      | _ => exact absurd rfl hkeeps
    cases hhandle
    simp [Numbering.sent, Numbering.fate, Handling.fate, Trace.quiet, Handling.born, Handling.others,
      Session.putSince]

theorem Numbers.redelivered (hv : l.Numbers v) {x : Nat × InflightEntry} (hx : x ∈ v.roster.items)
    {p : Publish} (hagain : .publish p = x.2.state.redelivery) (hqos : p.qos = .exactlyOnce) :
    p.packetId ≠ none ∧ (x.1, p.message) ∈ v.offered := by
  cases hstate : x.2.state with
  | qos1 q =>
      rw [hstate] at hagain
      cases hagain
      exact absurd hqos (hv.queuedQos1 x.1 x.2 q hx hstate)
  | qos2AwaitRec q =>
      rw [hstate] at hagain
      cases hagain
      exact (hv.queued x.1 x.2 q hx hstate).2
  | qos2AwaitComp pid =>
      rw [hstate] at hagain
      cases hagain

/-- An offered QoS 2 message is among those offered afterwards. -/
theorem offered_after (v : Numbering) {p : Publish} (hqos : p.qos = .exactlyOnce)
    (hoffer : hd.offer = some p.message) :
    (v.roster.next, p.message) ∈ (v.after cfg l hd).offered := by
  refine List.mem_append_right _ ?_
  simp [hoffer, Message.isQos2, Publish.message, hqos, Option.filter]

/-- A PUBLISH in the queue was there before, or is the one that is delivered. -/
theorem undelivered_after {n : Nat} {e : InflightEntry}
    (hn : (n, e) ∈ (v.after cfg l hd).roster.items) (hundelivered : e.state.undelivered ≠ none) :
    (∃ e₀, (n, e₀) ∈ v.roster.items ∧ e.state = e₀.state) ∨
      ∃ b, hd.born cfg l.session = some b ∧ n = v.roster.next ∧ e = b.1 := by
  rcases (v.roster.mem_advance_iff _ _).mp hn with ⟨e₀, he₀, hfate⟩ | hborn
  · exact Or.inl ⟨e₀, he₀, (Numbering.move_of_mem he₀).undelivered hfate hundelivered⟩
  · exact Or.inr hborn

/-- A message awaiting its PUBREC is one that was offered under its number. -/
theorem Numbers.queued_after (hv : l.Numbers v) {n : Nat} {e : InflightEntry} {p : Publish}
    (hn : (n, e) ∈ (v.after cfg l hd).roster.items) (hstate : e.state = .qos2AwaitRec p) :
    p.qos = .exactlyOnce ∧ p.packetId ≠ none ∧ (n, p.message) ∈ (v.after cfg l hd).offered := by
  rcases undelivered_after hn (by rw [hstate]; exact Option.some_ne_none p) with
    ⟨e₀, he₀, hsame⟩ | ⟨b, hborn, rfl, rfl⟩
  · obtain ⟨hqos, hpid, hoff⟩ := hv.queued n e₀ p he₀ (hsame ▸ hstate)
    exact ⟨hqos, hpid, List.mem_append_left _ hoff⟩
  · obtain ⟨q, hpid, hoffer, hstate' | ⟨hstate', hqos⟩, -⟩ := Handling.born_cases hborn
    · rw [hstate] at hstate'
      cases hstate'.1
    · rw [hstate] at hstate'
      cases hstate'
      exact ⟨hqos, by rw [hpid]; exact Option.some_ne_none _, offered_after v hqos hoffer⟩

theorem Numbers.queuedQos1_after (hv : l.Numbers v) {n : Nat} {e : InflightEntry} {p : Publish}
    (hn : (n, e) ∈ (v.after cfg l hd).roster.items) (hstate : e.state = .qos1 p) :
    p.qos ≠ .exactlyOnce := by
  rcases undelivered_after hn (by rw [hstate]; exact Option.some_ne_none p) with
    ⟨e₀, he₀, hsame⟩ | ⟨b, hborn, rfl, rfl⟩
  · exact hv.queuedQos1 n e₀ p he₀ (hsame ▸ hstate)
  · obtain ⟨q, hpid, hoffer, ⟨hstate', hqos⟩ | hstate', -⟩ := Handling.born_cases hborn
    · rw [hstate] at hstate'
      cases hstate'
      rw [hqos]
      decide
    · rw [hstate] at hstate'
      cases hstate'.1

/-- A QoS 2 PUBLISH that is sent is in the queue, or is the one that is delivered. -/
theorem publish_sent (hunasked : hd.unasked = true ∨ ∃ ack : Ack, hd = .call ack.op)
    {n : Option Nat} {p : Publish}
    (hp : (n, .publish p) ∈ v.sent cfg l.session hd) (hqos : p.qos = .exactlyOnce) :
    (∃ x ∈ v.roster.items, n = some x.1 ∧ .publish p = x.2.state.redelivery) ∨
      n = some v.roster.next ∧ p.packetId = some l.session.nextId ∧ hd.offer = some p.message := by
  rcases List.mem_append.mp hp with hsent | hother
  · rcases List.mem_append.mp hsent with hitem | hborn
    · obtain ⟨x, hx, hpacket⟩ := List.mem_filterMap.mp hitem
      obtain ⟨packet, hnote, heq⟩ := Option.map_eq_some_iff.mp hpacket
      cases heq
      exact Or.inl ⟨x, hx, rfl, (Numbering.move_of_mem hx).publish hnote⟩
    · obtain ⟨b, hb, hpacket⟩ := Option.bind_eq_some_iff.mp (Option.mem_toList.mp hborn)
      obtain ⟨packet, hnote, heq⟩ := Option.map_eq_some_iff.mp hpacket
      cases heq
      obtain ⟨q, hpid, hoffer, -, hpublish⟩ := Handling.born_cases hb
      rw [hnote] at hpublish
      split at hpublish
      · cases hpublish
        exact Or.inr ⟨rfl, hpid, hoffer⟩
      · cases hpublish
  · split at hother
    · obtain ⟨packet, hpacket, heq⟩ := List.mem_map.mp hother
      cases heq
      exact absurd hqos (by simp [Handling.others_qos hunasked hpacket])
    · cases hother

/-- A QoS 2 PUBLISH on the line carries an identifier and an offered message. -/
theorem Numbers.sent_after (hv : l.Numbers v)
    (hunasked : hd.unasked = true ∨ ∃ ack : Ack, hd = .call ack.op) {n : Option Nat} {p : Publish}
    (hp : (n, .publish p) ∈ (v.after cfg l hd).line) (hqos : p.qos = .exactlyOnce) :
    ∃ m, n = some m ∧ p.packetId ≠ none ∧ (m, p.message) ∈ (v.after cfg l hd).offered := by
  rcases List.mem_append.mp hp with hold | hsent
  · obtain ⟨m, rfl, hpid, hoff⟩ := hv.sent n p hold hqos
    exact ⟨m, rfl, hpid, List.mem_append_left _ hoff⟩
  · rcases publish_sent hunasked hsent hqos with ⟨x, hx, rfl, hagain⟩ | ⟨rfl, hpid, hoffer⟩
    · obtain ⟨hpid, hoff⟩ := hv.redelivered hx hagain hqos
      exact ⟨x.1, rfl, hpid, List.mem_append_left _ hoff⟩
    · exact ⟨_, rfl, by rw [hpid]; exact Option.some_ne_none _, offered_after v hqos hoffer⟩

/-- A QoS 2 message that leaves before its PUBREC is among the dead messages. -/
theorem Numbers.dead_of_gone (hv : l.Numbers v) {s' : Session} {dead : List DeadMsg}
    (hsession : l.session.handle cfg hd = some (s', dead)) {y : Item Nat}
    (hy : y ∈ (v.state l).queue) (hgone : (y.released || v.kept cfg l.session hd y) = false) :
    ∃ msg ∈ dead, (y.number, msg.publish.message) ∈ v.offered := by
  obtain ⟨x, hx, hitem⟩ := List.mem_filterMap.mp hy
  rw [Bool.or_eq_false_iff] at hgone
  have hnumber := Numbering.item_number hitem
  have hleft : (v.fate cfg l.session hd x).1 = none := by
    have hkept := hgone.2
    rw [Numbering.kept, hnumber, Numbering.find?_eq_of_mem hx, Option.any_some] at hkept
    simpa using hkept
  cases hstate : x.2.state with
  | qos1 p => rw [hstate] at hitem; cases hitem
  | qos2AwaitComp pid =>
      rw [hstate] at hitem
      cases hitem
      cases hgone.1
  | qos2AwaitRec p =>
      have hdead := (Numbering.move_of_mem hx).dead_of_awaitRec hstate hleft
      refine ⟨⟨p, x.2.attempts⟩, ?_, hnumber ▸ (hv.queued x.1 x.2 p hx hstate).2.2⟩
      rw [(Session.parts_of_handle hv.queue v.roster.sorted hsession).dead]
      exact List.mem_filterMap.mpr ⟨x, hx, hdead⟩

/-- The numbers follow the link through everything that the hub does to the session. -/
theorem Numbers.after (hv : l.Numbers v) (hattach : hd ≠ .call .attach)
    (hunasked : hd.unasked = true ∨ ∃ ack : Ack, hd = .call ack.op)
    (hhandle : l.handle cfg hd = some l') : l'.Numbers (v.after cfg l hd) := by
  obtain ⟨s', dead, hsession, rfl⟩ := exists_of_handle hhandle
  exact {
    queue := by
      rw [Numbering.after, Roster.map_snd_advance]
      exact (Session.parts_of_handle hv.queue v.roster.sorted hsession).queue.symm
    line := by
      rw [Numbering.after, List.map_append, hv.line, hv.line_handle hattach hsession]
    offered := by
      rw [Numbering.after, List.map_append, hv.offered, List.filter_append]
      congr 1
      cases hd.offer with
      | none => rfl
      | some m => cases hqos : m.isQos2 <;> simp [Option.filter, hqos]
    log := hv.log
    logged := fun x hx => List.mem_append_left _ (hv.logged hx)
    below := by
      intro x hx
      rcases List.mem_append.mp hx with hx | hx
      · exact (hv.below x hx).trans_le (Nat.le_add_right _ _)
      · obtain ⟨m, hm, rfl⟩ := List.mem_map.mp hx
        obtain ⟨hoffer, hqos⟩ := Option.filter_eq_some_iff.mp (Option.mem_toList.mp hm)
        obtain ⟨b, hborn⟩ := Handling.exists_born cfg l.session hoffer (Message.takesId_of_isQos2 hqos)
        simp [Numbering.after, Roster.advance, hborn]
    queued := fun _ _ _ => hv.queued_after
    queuedQos1 := fun _ _ _ => hv.queuedQos1_after
    sent := fun _ _ => hv.sent_after hunasked
    dropped := by
      intro n hn
      rcases List.mem_append.mp hn with hold | hnew
      · obtain ⟨msg, hmsg, hoff⟩ := hv.dropped n hold
        exact ⟨msg, List.mem_append_left _ hmsg, List.mem_append_left _ hoff⟩
      · obtain ⟨y, hy, rfl⟩ := List.mem_map.mp hnew
        obtain ⟨hqueued, hgone⟩ := List.mem_filter.mp hy
        obtain ⟨msg, hmsg, hoff⟩ :=
          hv.dead_of_gone hsession hqueued (by simpa using hgone)
        exact ⟨msg, List.mem_append_right _ hmsg, List.mem_append_left _ hoff⟩ }

/-! ## Every step is one of the exchange -/

/-- Handlings that keep the channel neither attach nor detach one. -/
theorem isSome_tx_of_keeps (hv : l.Numbers v) (hkeeps : hd.keepsChannel = true)
    {s' : Session} {dead : List DeadMsg} (hsession : l.session.handle cfg hd = some (s', dead)) :
    s'.tx.isSome = l.session.tx.isSome := by
  rw [(Session.parts_of_handle hv.queue v.roster.sorted hsession).channel hkeeps, Option.isSome_map]

/-- A handling that neither offers a QoS 2 message nor belongs to its handshake. -/
theorem Numbers.reaches_plain (hv : l.Numbers v) (hkeeps : hd.keepsChannel = true)
    (hunasked : hd.unasked = true ∨ ∃ pid, hd = .call (.onPuback pid))
    (hoffer : hd.offer.filter Message.isQos2 = none) (hhandle : l.handle cfg hd = some l') :
    State.Reaches (v.state l) ((v.after cfg l hd).state l') := by
  obtain ⟨s', dead, hsession, rfl⟩ := exists_of_handle hhandle
  have hhandshake : hd.isHandshake = false := by
    rcases hunasked with hunasked | ⟨pid, rfl⟩
    · cases hd with
      | call op => cases op <;> first | rfl | cases hunasked
      | _ => rfl
    · rfl
  refine Numbering.reaches_plain hv hhandshake ?_ ?_ hoffer (isSome_tx_of_keeps hv hkeeps hsession)
    rfl rfl rfl
  · intro b hb
    obtain ⟨p, -, hmessage, ⟨hstate, hqos⟩ | ⟨-, hqos⟩, hpacket⟩ := Handling.born_cases hb
    · refine ⟨by rw [hstate]; rfl, fun packet hnote => ?_⟩
      rw [hnote] at hpacket
      split at hpacket
      · cases hpacket
        simp [frameOf, hqos]
      · cases hpacket
    · rw [hmessage] at hoffer
      simp [Option.filter, Message.isQos2, Publish.message, hqos] at hoffer
  · intro packet hpacket
    cases packet with
    | publish p => rfl
    | publishRelease pid =>
        cases hd with
        | call op =>
            cases op with
            | deliver topic payload qos retain now =>
                simp only [Handling.others] at hpacket
                split at hpacket
                · cases List.mem_singleton.mp hpacket
                · cases hpacket
            | onPubrec pid => cases hhandshake
            | _ => cases hpacket
        | pass packets =>
            rcases hunasked with hunasked | ⟨pid, hpid⟩
            · cases List.all_eq_true.mp hunasked _ hpacket
            · cases hpid
        | drain => cases hpacket

/-- A connection that ends. -/
theorem Numbers.reaches_detach (hhandle : l.handle cfg (.call .detach) = some l') :
    State.Reaches (v.state l) ((v.after cfg l (.call .detach)).state l') := by
  obtain ⟨s', dead, hsession, rfl⟩ := exists_of_handle hhandle
  cases hsession
  refine .single ?_
  convert State.Step.lose (s := v.state l) using 1
  ext1
  · rw [Numbering.queue_after]
    simp [Numbering.fate, Handling.fate, Handling.born, Numbering.state]
  · rw [Numbering.line_after (by simp [Handling.others])]
    simp [Numbering.resent, Numbering.fate, Handling.fate, Handling.born, Trace.quiet]
  · rfl
  · rfl
  · rfl
  · rfl
  · simp [Numbering.state, Numbering.after, Handling.offer, Option.filter]
  · exact Numbering.dropped_after fun x _ => Or.inr rfl
  · rfl

/-- A delivery at QoS 2, with an identifier at rest. -/
theorem Numbers.reaches_offer (hv : l.Numbers v) {topic : String} {payload : Bytes} {retain : Bool}
    {now : Nat} (hrest : (v.state l).AtRest l.session.nextId)
    (hhandle : l.handle cfg (.call (.deliver topic payload .exactlyOnce retain now)) = some l') :
    State.Reaches (v.state l)
      ((v.after cfg l (.call (.deliver topic payload .exactlyOnce retain now))).state l') := by
  obtain ⟨s', dead, hsession, rfl⟩ := exists_of_handle hhandle
  have honline := isSome_tx_of_keeps hv rfl hsession
  refine .single ?_
  have hfresh : ∀ m ∈ (v.state l).offered, m < v.roster.next := by
    intro m hm
    obtain ⟨x, hx, rfl⟩ := List.mem_map.mp hm
    exact hv.below x hx
  convert State.Step.offer v.roster.next l.session.nextId hfresh hrest using 1
  ext1
  · rw [Numbering.queue_after]
    simp [Numbering.fate, Handling.fate, Handling.born, Numbering.state, Session.entriesFor,
      Inflight.item, Session.publishFor, makePublish, State.put]
  · rw [Numbering.line_after (by simp [Handling.others])]
    by_cases htx : l.session.tx.isSome = true
    · simp [Numbering.resent, Numbering.fate, Handling.fate, Handling.born, Trace.quiet,
        Session.entriesFor, Session.publishFor, makePublish, State.put, Numbering.state, frameOf, htx]
    · simp [Numbering.resent, Numbering.fate, Handling.fate, Handling.born, Trace.quiet,
        Session.entriesFor, State.put, Numbering.state, htx]
  · rfl
  · rfl
  · rfl
  · rfl
  · simp [Numbering.state, Numbering.after, Handling.offer, Option.filter, Message.isQos2, State.put]
  · exact Numbering.dropped_after fun x _ => Or.inr rfl
  · exact honline

theorem Numbers.reconnect (hv : l.Numbers v) : l.reconnect.Numbers { v with line := [] } :=
  { hv with
    line := rfl
    sent := fun _ _ hp => absurd hp List.not_mem_nil }

/-- The next connection. -/
theorem Numbers.resume (hv : l.Numbers v) {now : Nat} (hstep : l.step cfg (.resume now) = some l') :
    ∃ v', l'.Numbers v' ∧ State.Reaches (v.state l) (v'.state l') := by
  -- the new channel is empty, and the retransmission is put on it
  let v₁ : Numbering := { v with line := [] }
  let l₁ : Link := l.reconnect
  have hv₁ : l₁.Numbers v₁ := hv.reconnect
  have hhandle : l₁.handle cfg (.call (.retransmit now)) = some l' := handle_reconnect hstep
  refine ⟨v₁.after cfg l₁ (.call (.retransmit now)),
    hv₁.after (by simp) (Or.inl rfl) hhandle, .single ?_⟩
  obtain ⟨s', dead, hsession, rfl⟩ := exists_of_handle hhandle
  have honline := isSome_tx_of_keeps hv₁ rfl hsession
  convert State.Step.connect (s := v.state l) using 1
  ext1
  · rw [Numbering.queue_after]
    simp [Numbering.fate, Handling.fate, Handling.born, Numbering.state, v₁]
  · have hresent : v₁.resent cfg l₁.session (.call (.retransmit now)) = (v.state l).outbox := by
      rw [Numbering.resent, State.outbox, Numbering.state, List.filterMap_filterMap,
        List.map_filterMap]
      refine List.filterMap_congr fun x hx => ?_
      rw [← Numbering.frameOf_redelivery hv hx]
      rfl
    rw [Numbering.line_after (by simp [Handling.others]), hresent]
    simp [Numbering.state, v₁, Handling.born]
  · rfl
  · simp [Numbering.state, l₁, Link.reconnect, Client.reconnect]
  · rfl
  · rfl
  · simp [Numbering.state, Numbering.after, Handling.offer, Option.filter, v₁]
  · exact Numbering.dropped_after fun x _ => Or.inr rfl
  · exact honline

/-- The numbers go with the link when the client has read a packet. -/
theorem Numbers.of_read (hv : l.Numbers v) {tag : Option Nat} {packet : Packet}
    {more : List (Option Nat × Packet)} {log : List (Nat × Message)}
    (hline : v.line = (tag, packet) :: more) {client : Client}
    (hmore : client.line = more.map Prod.snd)
    (hlog : log.map Prod.snd = client.log.filter Message.isQos2) (hlogged : log ⊆ v.offered) :
    ({ l with client := client } : Link).Numbers { v with line := more, log := log } :=
  { hv with
    line := hmore.symm
    log := hlog
    logged := hlogged
    sent := fun n p hp => hv.sent n p (hline ▸ List.mem_cons_of_mem _ hp) }

/-- The client reads a packet. -/
theorem Numbers.read (hv : l.Numbers v) (hstep : l.step cfg .read = some l') :
    ∃ v', l'.Numbers v' ∧ State.Reaches (v.state l) (v'.state l') := by
  rw [step] at hstep
  split at hstep
  · cases hstep
  next packet rest hline =>
    cases hstep
    have htagged := hv.line
    rw [hline] at htagged
    obtain ⟨⟨tag, packet'⟩, more, hmore, heq, hrest⟩ := List.map_eq_cons_iff.mp htagged
    obtain rfl : packet' = packet := heq
    have hlines : (v.state l).line = (frameOf (tag, packet')).toList ++ more.filterMap frameOf := by
      rw [Numbering.state, hmore]
      cases hframe : frameOf (tag, packet') <;> simp [hframe]
    cases packet' with
    | publishRelease pid =>
        refine ⟨{ v with line := more, log := v.log },
          hv.of_read hmore hrest.symm hv.log hv.logged, .single ?_⟩
        convert State.Step.read (.release pid) (more.filterMap frameOf) hlines using 1
        ext1 <;> simp [Numbering.state, Client.read, State.read, Ack.reply]
    | publish p =>
        by_cases hqos : p.qos = .exactlyOnce
        · obtain ⟨m, rfl, hpid, hoff⟩ := hv.sent tag p (hmore ▸ List.mem_cons_self) hqos
          obtain ⟨pid, hpid⟩ := Option.ne_none_iff_exists'.mp hpid
          have hframe : frameOf (some m, .publish p) = some (.data m pid) := by
            simp [frameOf, hqos, hpid]
          rw [hframe] at hlines
          have hstep := State.Step.read (.data m pid) (more.filterMap frameOf) hlines
          by_cases hheld : pid ∈ l.client.held
          · refine ⟨{ v with line := more, log := v.log },
              hv.of_read hmore ?_ ?_ hv.logged, .single ?_⟩
            · simp [Client.read, hqos, hpid, hheld, hrest]
            · simp [Client.read, hqos, hpid, hheld, hv.log]
            · convert hstep using 1
              ext1 <;> simp [Numbering.state, Client.read, State.read, Ack.reply, hqos, hpid, hheld]
          · refine ⟨{ v with line := more, log := v.log ++ [(m, p.message)] },
              hv.of_read hmore ?_ ?_ ?_, .single ?_⟩
            · simp [Client.read, hqos, hpid, hheld, hrest]
            · simp [Client.read, hqos, hpid, hheld, hv.log, Message.isQos2, Publish.message]
            · exact List.append_subset.mpr ⟨hv.logged, by simpa using hoff⟩
            · convert hstep using 1
              ext1 <;> simp [Numbering.state, Client.read, State.read, Ack.reply, hqos, hpid, hheld]
        · obtain ⟨acks, hacks, hread⟩ := Client.exists_read_of_qos { l.client with line := rest } hqos
          have hframe : frameOf (tag, .publish p) = none := by
            cases tag <;> simp [frameOf, hqos]
          rw [hframe] at hlines
          rw [hread]
          refine ⟨{ v with line := more, log := v.log },
            hv.of_read hmore hrest.symm ?_ hv.logged, ?_⟩
          · simp [hv.log, Message.isQos2, Publish.message, hqos]
          · have hsame : v.state l = Numbering.state { v with line := more, log := v.log } { l with
                client := { l.client with
                  line := rest, log := l.client.log ++ [p.message]
                  replies := l.client.replies ++ acks } } := by
              ext1 <;> simp [Numbering.state, hacks]
              exact hlines
            rw [hsame]

/-! ## Replies -/

/-- PUBRELs are frames whatever they are sent for. -/
theorem filterMap_frameOf_pubrel (pid : Nat) {sent : List (Option Nat × Packet)}
    {packets : List Packet} (hsent : sent.map Prod.snd = packets) (hall : ∀ p ∈ packets, p = pubrel pid) :
    sent.filterMap frameOf = packets.map fun _ => .release pid := by
  subst hsent
  rw [List.map_map, ← List.filterMap_eq_map]
  refine List.filterMap_congr fun x hx => ?_
  obtain ⟨tag, packet⟩ := x
  obtain rfl : packet = pubrel pid := hall packet (List.mem_map_of_mem hx)
  rfl

/-- A PUBREC is answered with a PUBREL, one for an unknown identifier unless it is 0. -/
def pubrels (s : Session) (pid : Nat) : List Packet :=
  if (Session.awaitComp pid s.inflight).isSome = true ∨ pid ≠ 0 then [pubrel pid] else []

/-- What a PUBREC is answered with, if the session is online. -/
theorem putSince_onPubrec (s : Session) (pid : Nat) :
    s.putSince (s.onPubrec pid) = if s.tx.isSome = true then pubrels s pid else [] := by
  unfold Session.putSince Session.onPubrec pubrels
  cases Session.awaitComp pid s.inflight with
  | some queue => cases htx : s.tx <;> simp [Session.send]
  | none => by_cases hpid : pid = 0 <;> cases htx : s.tx <;> simp [Session.send, htx, hpid]

theorem Numbers.line_onPubrec (hv : l.Numbers v) (pid : Nat) (l' : Link) :
    ((v.after cfg l (.call (.onPubrec pid))).state l').line =
      ((v.state l).put ((pubrels l.session pid).map fun _ => .release pid)).line := by
  have hsent : (v.sent cfg l.session (.call (.onPubrec pid))).map Prod.snd = _ :=
    hv.line_handle (by simp) rfl
  rw [putSince_onPubrec] at hsent
  have hframes := filterMap_frameOf_pubrel pid hsent (by
    intro p hp
    unfold pubrels at hp
    split at hp
    · split at hp
      · exact List.mem_singleton.mp hp
      · cases hp
    · cases hp)
  have hline : ((v.after cfg l (.call (.onPubrec pid))).state l').line =
      (v.state l).line ++ (v.sent cfg l.session (.call (.onPubrec pid))).filterMap frameOf :=
    List.filterMap_append
  rw [hline, hframes]
  cases htx : l.session.tx.isSome with
  | true => rw [if_pos rfl, State.line_put_of_online htx]
  | false => rw [if_neg Bool.false_ne_true, State.line_put_of_offline htx, List.map_nil,
      List.append_nil]

/-- A PUBREC. The identifiers in the queue are distinct, so it is for one item. -/
theorem Numbers.answers_pubrec (hv : l.Numbers v) (hinv : (v.state l).Inv) {pid : Nat}
    (hhandle : l.handle cfg (.call (.onPubrec pid)) = some l') :
    (v.state l).Answers (.received pid) ((v.after cfg l (.call (.onPubrec pid))).state l') := by
  obtain ⟨s', dead, hsession, rfl⟩ := exists_of_handle hhandle
  have honline := isSome_tx_of_keeps hv rfl hsession
  have hdropped : (v.after cfg l (.call (.onPubrec pid))).dropped = v.dropped := by
    refine Numbering.dropped_after fun x _ => Or.inr ?_
    simp only [Numbering.fate, Handling.fate]
    split <;> rfl
  have hawait := Session.awaitComp_eq pid v.roster.items v.roster.sorted
  rw [hv.queue] at hawait
  cases hfind : v.roster.items.find? fun x => x.2.state.awaits pid with
  | none =>
      have htaken : Handling.taken v.roster.items (.call (.onPubrec pid)) = none := by
        simp [Handling.taken, hfind]
      convert State.Answers.unknown (s := v.state l) pid ?_
        ((pubrels l.session pid).map fun _ => .release pid) ?_ using 1
      · ext1
        · rw [Numbering.queue_after]
          simp [Numbering.fate, Handling.fate, htaken, Handling.born, Numbering.state, State.put]
        · exact hv.line_onPubrec pid _
        · rfl
        · rfl
        · rfl
        · rfl
        · simp [Numbering.state, Numbering.after, Handling.offer, Option.filter, State.put]
        · exact hdropped
        · exact honline
      · intro y hy hid
        obtain ⟨x, hx, hitem⟩ := List.mem_filterMap.mp hy
        have hnot := List.find?_eq_none.mp hfind x hx
        cases hstate : x.2.state with
        | qos1 p => rw [hstate] at hitem; cases hitem
        | qos2AwaitComp pid' => rw [hstate] at hitem; cases hitem; rfl
        | qos2AwaitRec p =>
            rw [hstate] at hitem hnot
            obtain ⟨pid', hpid', rfl⟩ := Option.map_eq_some_iff.mp hitem
            obtain rfl : pid' = pid := hid
            simp [Inflight.awaits, hpid'] at hnot
      · intro f hf
        obtain ⟨-, -, rfl⟩ := List.mem_map.mp hf
        rfl
  | some x =>
      have htaken : Handling.taken v.roster.items (.call (.onPubrec pid)) = some x.1 := by
        simp [Handling.taken, hfind]
      have hx := List.mem_of_find?_eq_some hfind
      have hitem : x.2.state.item x.1 = some ⟨x.1, pid, false⟩ := by
        have hawaits := List.find?_some hfind
        cases hstate : x.2.state with
        | qos2AwaitRec p =>
            rw [hstate] at hawaits
            simp [Inflight.item, of_decide_eq_true hawaits]
        | _ => rw [hstate] at hawaits; cases hawaits
      have hqueued : (⟨x.1, pid, false⟩ : Item Nat) ∈ (v.state l).queue :=
        List.mem_filterMap.mpr ⟨x, hx, hitem⟩
      have hpubrels : pubrels l.session pid = [pubrel pid] := by
        rw [pubrels, hawait, hfind]
        simp
      convert State.Answers.confirm _ hqueued rfl using 1
      ext1
      · rw [Numbering.queue_after]
        simp only [Handling.born, Option.bind_none, Option.toList_none, List.append_nil]
        change _ = (List.filterMap _ _).map _
        rw [List.map_filterMap]
        refine List.filterMap_congr fun z hz => ?_
        simp only [Numbering.fate, Handling.fate, htaken, Option.some.injEq]
        split
        next hname =>
          -- the message that the PUBREC is taken for
          have hsame : (z.1, x.2) ∈ v.roster.items := hname ▸ hx
          rw [v.roster.eq_of_mem hz hsame, ← hname, hitem]
          simp [Inflight.item]
        next hname =>
          rw [Option.bind_some]
          cases hz' : z.2.state.item z.1 with
          | none => rfl
          | some y =>
              have hid : y.id ≠ pid := by
                intro hid
                have hy : y ∈ (v.state l).queue := List.mem_filterMap.mpr ⟨z, hz, hz'⟩
                rw [hinv.eq_of_id hy hqueued hid] at hz'
                exact hname (Numbering.item_number hz')
              simp [hid]
      · rw [hv.line_onPubrec, hpubrels]
        rfl
      · rfl
      · rfl
      · rfl
      · rfl
      · simp [Numbering.state, Numbering.after, Handling.offer, Option.filter, State.put, State.release]
      · exact hdropped
      · exact honline

/-- A PUBCOMP. -/
theorem Numbers.answers_pubcomp (hv : l.Numbers v) {pid : Nat}
    (hhandle : l.handle cfg (.call (.onPubcomp pid)) = some l') :
    (v.state l).Answers (.complete pid) ((v.after cfg l (.call (.onPubcomp pid))).state l') := by
  obtain ⟨s', dead, hsession, rfl⟩ := exists_of_handle hhandle
  have honline := isSome_tx_of_keeps hv rfl hsession
  convert State.Answers.complete (s := v.state l) pid using 1
  ext1
  · rw [Numbering.queue_after]
    simp only [Handling.born, Option.bind_none, Option.toList_none, List.append_nil]
    change _ = (List.filterMap _ _).filter _
    rw [List.filter_filterMap]
    refine List.filterMap_congr fun x hx => ?_
    simp only [Numbering.fate, Handling.fate]
    cases hstate : x.2.state with
    | qos1 p => simp [hstate, Inflight.item]
    | qos2AwaitRec p => cases hpid : p.packetId <;> simp [hstate, Inflight.item, hpid, Option.filter]
    | qos2AwaitComp pid' =>
        by_cases hpid : pid' = pid <;> simp [hstate, Inflight.item, hpid, Option.filter]
  · rw [Numbering.line_after (by simp [Handling.others])]
    have hquiet : ∀ x : Nat × InflightEntry,
        (v.fate cfg l.session (.call (.onPubcomp pid)) x).2.packet = none := by
      intro x
      simp only [Numbering.fate, Handling.fate]
      rfl
    simp [Numbering.resent, hquiet, Handling.born, State.finish]
  · rfl
  · rfl
  · rfl
  · rfl
  · simp [Numbering.state, Numbering.after, Handling.offer, Option.filter, State.finish]
  · refine Numbering.dropped_after fun x _ => ?_
    simp only [Numbering.fate, Handling.fate]
    split
    next hstate => exact Or.inl ⟨pid, hstate⟩
    next => exact Or.inr rfl
  · exact honline

/-- The hub handles a reply that it was given. -/
theorem Numbers.answer {l₁ : Link} (hv : l.Numbers v) (hinv : (v.state l).Inv) {ack : Ack}
    (hsame : l₁ = { l with client := { l.client with
      replies := l₁.client.replies, late := l₁.client.late } })
    (htook : ∀ r, ack.reply = some r → (v.state l).Took r (v.state l₁))
    (hnone : ack.reply = none → v.state l₁ = v.state l)
    (hhandle : l₁.handle cfg (.call ack.op) = some l') :
    ∃ v', l'.Numbers v' ∧ State.Reaches (v.state l) (v'.state l') := by
  have hv₁ : l₁.Numbers v := by
    rw [hsame]
    exact { hv with }
  refine ⟨v.after cfg l₁ (.call ack.op), hv₁.after (by cases ack <;> simp [Ack.op])
    (Or.inr ⟨ack, rfl⟩) hhandle, ?_⟩
  cases ack with
  | puback pid =>
      rw [← hnone rfl]
      exact hv₁.reaches_plain rfl (Or.inr ⟨pid, rfl⟩) rfl hhandle
  | pubrec pid =>
      have htook := htook _ rfl
      exact .single (.answer _ _ _ htook (hv₁.answers_pubrec (htook.inv hinv).1 hhandle))
  | pubcomp pid => exact .single (.answer _ _ _ (htook _ rfl) (hv₁.answers_pubcomp hhandle))

/-! ## Runs -/

/-- An identifier that the link does not know is at rest in the exchange. -/
theorem Numbers.atRest (hv : l.Numbers v) {pid : Nat} (hrests : l.Rests pid) :
    (v.state l).AtRest pid := by
  obtain ⟨hqueue, hline, hreplies, hlate, hheld⟩ := hrests
  have hreply : ∀ acks : List Ack, .pubrec pid ∉ acks →
      Exchange.Reply.received pid ∉ acks.filterMap Ack.reply := by
    intro acks hnot hmem
    obtain ⟨ack, hack, hreply⟩ := List.mem_filterMap.mp hmem
    cases ack with
    | pubrec pid' => cases hreply; exact hnot hack
    | _ => cases hreply
  refine ⟨?_, ?_, hreply _ hreplies, hreply _ hlate, hheld⟩
  · intro y hy hid
    obtain ⟨x, hx, hitem⟩ := List.mem_filterMap.mp hy
    have hmem : x.2 ∈ l.session.inflight := hv.queue ▸ List.mem_map_of_mem hx
    cases hstate : x.2.state with
    | qos1 p => rw [hstate] at hitem; cases hitem
    | qos2AwaitRec p =>
        rw [hstate] at hitem
        obtain ⟨pid', hpid', rfl⟩ := Option.map_eq_some_iff.mp hitem
        obtain rfl : pid' = pid := hid
        exact hqueue x.2 hmem (by rw [hstate]; rfl) (by rw [hstate, Inflight.packetId, hpid'])
    | qos2AwaitComp pid' =>
        rw [hstate] at hitem
        cases hitem
        obtain rfl : pid' = pid := hid
        exact hqueue x.2 hmem (by rw [hstate]; rfl) (by rw [hstate, Inflight.packetId])
  · intro n hmem
    obtain ⟨⟨tag, packet⟩, hx, hframe⟩ := List.mem_filterMap.mp hmem
    have hpacket : packet ∈ l.client.line := hv.line ▸ List.mem_map_of_mem hx
    refine hline packet hpacket ?_
    cases packet with
    | publishRelease pid' => cases hframe
    | publish p =>
        cases tag with
        | none => cases hframe
        | some m =>
            simp only [frameOf] at hframe
            split at hframe
            next hqos =>
              obtain ⟨pid', hpid', heq⟩ := Option.map_eq_some_iff.mp hframe
              cases heq
              rw [Packet.qos2Id, if_pos hqos, hpid']
            next => cases hframe

/-- A step of the link is made of steps of the exchange. -/
theorem Numbers.step (hv : l.Numbers v) (hinv : (v.state l).Inv) {st : LinkStep}
    (hrest : l.AtRest st) (hstep : l.step cfg st = some l') :
    ∃ v', l'.Numbers v' ∧ State.Reaches (v.state l) (v'.state l') := by
  cases st with
  | handle hd =>
      rw [Link.step] at hstep
      split at hstep
      next hunasked =>
        refine ⟨v.after cfg l hd, hv.after ?_ (Or.inl hunasked) hstep, ?_⟩
        · rintro rfl
          cases hunasked
        · by_cases hkeeps : hd.keepsChannel = true
          · cases hoffer : hd.offer.filter Message.isQos2 with
            | none => exact hv.reaches_plain hkeeps (Or.inl hunasked) hoffer hstep
            | some m =>
                obtain ⟨hm, hqos⟩ := Option.filter_eq_some_iff.mp hoffer
                cases hd with
                | call op =>
                    cases op with
                    | deliver topic payload qos retain now =>
                        cases hm
                        obtain rfl : qos = .exactlyOnce := of_decide_eq_true hqos
                        exact hv.reaches_offer (hv.atRest (hrest rfl)) hstep
                    | _ => cases hm
                | _ => cases hm
          · cases hd with
            | call op =>
                cases op with
                | attach => cases hunasked
                | detach => exact reaches_detach hstep
                | _ => exact absurd rfl hkeeps
            | _ => exact absurd rfl hkeeps
      next => cases hstep
  | resume now => exact hv.resume hstep
  | read => exact hv.read hstep
  | answer =>
      rw [Link.step] at hstep
      split at hstep
      · cases hstep
      next ack rest hreplies =>
        refine hv.answer hinv rfl ?_ ?_ hstep
        · intro r hr
          refine .next _ ?_
          simp [Numbering.state, hreplies, hr]
        · intro hnone
          simp [Numbering.state, hreplies, hnone]
  | answerLate k =>
      rw [Link.step] at hstep
      split at hstep
      · cases hstep
      next ack hlate =>
        obtain ⟨hk, hget⟩ := List.getElem?_eq_some_iff.mp hlate
        have hsplit : l.client.late = l.client.late.take k ++ ack :: l.client.late.drop (k + 1) := by
          rw [← hget, List.getElem_cons_drop, List.take_append_drop]
        refine hv.answer hinv rfl ?_ ?_ hstep
        · intro r hr
          have hamong : (v.state l).late = (l.client.late.take k).filterMap Ack.reply ++
              r :: (l.client.late.drop (k + 1)).filterMap Ack.reply := by
            rw [Numbering.state]
            nth_rewrite 1 [hsplit]
            simp [hr]
          convert State.Took.late _ _ hamong using 1
          simp [Numbering.state, List.eraseIdx_eq_take_drop_succ]
        · intro hnone
          have hsame : (l.client.late.eraseIdx k).filterMap Ack.reply =
              l.client.late.filterMap Ack.reply := by
            nth_rewrite 2 [hsplit]
            simp [List.eraseIdx_eq_take_drop_succ, hnone]
          simp [Numbering.state, hsame]

/-! ## What the client's application gets -/

/-- The QoS 2 messages of a link. -/
structure Delivered (l : Link) : Prop where
  /-- Each message is passed on at most once, in order; one that is not passed on awaits
  its PUBREC or was given up. -/
  once : ∃ passed : List Bool,
    passed.length = (l.offered.filter Message.isQos2).length ∧
    l.client.log.filter Message.isQos2 =
      (((l.offered.filter Message.isQos2).zip passed).filter Prod.snd).map Prod.fst ∧
    ∀ x ∈ (l.offered.filter Message.isQos2).zip passed, x.2 = false →
      x.1 ∈ l.awaiting ∨ ∃ msg ∈ l.dropped, msg.publish.message = x.1
  /-- If none was given up, those passed on come first. -/
  inOrder : (∀ msg ∈ l.dropped, msg.publish.message.isQos2 = false) →
    l.client.log.filter Message.isQos2 <+: l.offered.filter Message.isQos2
  /-- If moreover none awaits its PUBREC, all were passed on. -/
  settled : (∀ msg ∈ l.dropped, msg.publish.message.isQos2 = false) → l.awaiting = [] →
    l.client.log.filter Message.isQos2 = l.offered.filter Message.isQos2

/-- A number stands for one message. -/
theorem eq_of_offered (hinv : (v.state l).Inv) {n : Nat} {m m' : Message}
    (hm : (n, m) ∈ v.offered) (hm' : (n, m') ∈ v.offered) : m = m' := by
  have hnodup : (v.offered.map Prod.fst).Nodup := hinv.offered.imp Nat.ne_of_lt
  exact (Prod.mk.inj (List.inj_on_of_nodup_map hnodup hm hm' rfl)).2

/-- The messages passed on, among those delivered. -/
theorem Numbers.log_eq (hv : l.Numbers v) (hinv : (v.state l).Inv) :
    v.log = v.offered.filter fun x => x.1 ∈ v.log.map Prod.fst := by
  have hlog : v.log.Pairwise fun x y => x.1 < y.1 := List.pairwise_map.mp hinv.log
  have hoffered : v.offered.Pairwise fun x y => x.1 < y.1 := List.pairwise_map.mp hinv.offered
  have hne : ∀ {x y : Nat × Message}, x.1 < y.1 → x ≠ y := by
    rintro x y hlt rfl
    exact lt_irrefl _ hlt
  refine List.Perm.eq_of_pairwise (fun x y _ _ hxy hyx => absurd hxy (Nat.lt_asymm hyx)) hlog
    (hoffered.filter _) ?_
  rw [List.perm_ext_iff_of_nodup (hlog.imp hne) ((hoffered.filter _).imp hne)]
  intro x
  rw [List.mem_filter, decide_eq_true_eq]
  constructor
  · exact fun hx => ⟨hv.logged hx, List.mem_map_of_mem hx⟩
  · rintro ⟨hx, hmem⟩
    obtain ⟨y, hy, hname⟩ := List.mem_map.mp hmem
    have hy' : (x.1, y.2) ∈ v.offered := hname ▸ hv.logged hy
    have hsame : y = x := Prod.ext hname (eq_of_offered hinv hy' hx)
    exact hsame ▸ hy

/-- If their numbers come first, so do they. -/
theorem Numbers.log_eq_take (hv : l.Numbers v) (hinv : (v.state l).Inv) {waiting : List Nat}
    (hsplit : v.offered.map Prod.fst = v.log.map Prod.fst ++ waiting) :
    v.log = v.offered.take v.log.length := by
  have hnodup : (v.log.map Prod.fst ++ waiting).Nodup := by
    rw [← hsplit]
    exact hinv.offered.imp Nat.ne_of_lt
  have hfirst : (v.offered.take v.log.length).map Prod.fst = v.log.map Prod.fst := by
    rw [List.map_take, hsplit, List.take_left' (List.length_map _)]
  have hrest : (v.offered.drop v.log.length).map Prod.fst = waiting := by
    rw [List.map_drop, hsplit, List.drop_left' (List.length_map _)]
  have hall : (v.offered.take v.log.length).filter (fun x => x.1 ∈ v.log.map Prod.fst) =
      v.offered.take v.log.length := by
    rw [List.filter_eq_self]
    intro x hx
    rw [decide_eq_true_eq, ← hfirst]
    exact List.mem_map_of_mem hx
  have hnone : (v.offered.drop v.log.length).filter (fun x => x.1 ∈ v.log.map Prod.fst) = [] := by
    rw [List.filter_eq_nil_iff]
    intro x hx hmem
    have hwaits : x.1 ∈ waiting := hrest ▸ List.mem_map_of_mem hx
    exact List.disjoint_of_nodup_append hnodup (of_decide_eq_true hmem) hwaits
  calc v.log
      = v.offered.filter fun x => x.1 ∈ v.log.map Prod.fst := hv.log_eq hinv
    _ = (v.offered.take v.log.length ++ v.offered.drop v.log.length).filter
          fun x => x.1 ∈ v.log.map Prod.fst := by rw [List.take_append_drop]
    _ = v.offered.take v.log.length := by rw [List.filter_append, hall, hnone, List.append_nil]

theorem mem_awaiting_of_item (hv : l.Numbers v) {n pid : Nat}
    (hitem : ⟨n, pid, false⟩ ∈ (v.state l).queue) : ∃ m ∈ l.awaiting, (n, m) ∈ v.offered := by
  obtain ⟨x, hx, hstate⟩ := List.mem_filterMap.mp hitem
  cases hcase : x.2.state with
  | qos1 p => rw [hcase] at hstate; cases hstate
  | qos2AwaitComp pid' => rw [hcase] at hstate; cases hstate
  | qos2AwaitRec p =>
      rw [hcase] at hstate
      obtain rfl : n = x.1 := Numbering.item_number hstate
      obtain ⟨-, -, hoff⟩ := hv.queued x.1 x.2 p hx hcase
      refine ⟨p.message, List.mem_filterMap.mpr ⟨x.2, ?_, by rw [hcase]⟩, hoff⟩
      exact hv.queue ▸ List.mem_map_of_mem hx

theorem Numbers.dropped_eq_nil (hv : l.Numbers v)
    (hnone : ∀ msg ∈ l.dropped, msg.publish.message.isQos2 = false) : v.dropped = [] := by
  rw [List.eq_nil_iff_forall_not_mem]
  intro n hn
  obtain ⟨msg, hmsg, hoff⟩ := hv.dropped n hn
  have hmem : msg.publish.message ∈ l.offered.filter Message.isQos2 :=
    hv.offered ▸ List.mem_map_of_mem hoff
  rw [List.mem_filter, hnone msg hmsg] at hmem
  cases hmem.2

/-- Read back through the numbers, the exchange's invariant is the statement about
messages. -/
theorem Numbers.delivered (hv : l.Numbers v) (hinv : (v.state l).Inv) : l.Delivered := by
  have horder : (∀ msg ∈ l.dropped, msg.publish.message.isQos2 = false) →
      ∃ k, v.log = v.offered.take k ∧ (l.awaiting = [] → v.offered.length ≤ k) := by
    intro hnone
    obtain ⟨waiting, hsplit, hwaits⟩ := hinv.log_append (hv.dropped_eq_nil hnone)
    have hsplit : v.offered.map Prod.fst = v.log.map Prod.fst ++ waiting := hsplit
    refine ⟨v.log.length, ?_, fun hawaiting => ?_⟩
    · exact hv.log_eq_take hinv hsplit
    · have hwaiting : waiting = [] := by
        rw [List.eq_nil_iff_forall_not_mem]
        intro n hn
        obtain ⟨pid, hitem⟩ := hwaits n hn
        obtain ⟨m, hm, -⟩ := mem_awaiting_of_item hv hitem
        rw [hawaiting] at hm
        cases hm
      have hlength := congrArg List.length hsplit
      rw [hwaiting, List.append_nil, List.length_map, List.length_map] at hlength
      exact hlength.le
  refine ⟨?_, ?_, ?_⟩
  · refine ⟨v.offered.map fun x => decide (x.1 ∈ v.log.map Prod.fst), ?_, ?_, ?_⟩
    · rw [← hv.offered, List.length_map, List.length_map]
    · rw [← hv.offered, ← hv.log, List.zip_map', List.filter_map, List.map_map]
      nth_rewrite 1 [hv.log_eq hinv]
      rfl
    · intro x hx hpassed
      rw [← hv.offered, List.zip_map'] at hx
      obtain ⟨y, hy, rfl⟩ := List.mem_map.mp hx
      have hnot : y.1 ∉ (v.state l).log := of_decide_eq_false hpassed
      rcases hinv.account y.1 (List.mem_map_of_mem hy) with hlog | ⟨pid, hdata⟩ | hdrop
      · exact absurd hlog hnot
      · obtain ⟨m, hm, hoff⟩ := mem_awaiting_of_item hv (State.data_mem_outbox.mp hdata)
        exact Or.inl (eq_of_offered hinv hoff hy ▸ hm)
      · obtain ⟨msg, hmsg, hoff⟩ := hv.dropped y.1 hdrop
        exact Or.inr ⟨msg, hmsg, eq_of_offered hinv hoff hy⟩
  · intro hnone
    obtain ⟨k, hlog, -⟩ := horder hnone
    rw [← hv.log, ← hv.offered, hlog]
    exact (List.take_prefix k _).map _
  · intro hnone hawaiting
    obtain ⟨k, hlog, hk⟩ := horder hnone
    rw [← hv.log, ← hv.offered, hlog, List.take_of_length_le (hk hawaiting)]

/-- With an empty queue the numbers start from nothing. -/
theorem exists_numbers_start {s : Session} (hqueue : s.inflight = []) :
    ∃ v, (start s).Numbers v ∧ (v.state (start s)).Inv := by
  refine ⟨⟨.ofList [], [], [], [], []⟩, ?_, State.inv_start s.tx.isSome⟩
  constructor <;> simp [start, Client.start, Roster.ofList, hqueue]

/-- From a session with an empty queue, in every run of the session and its client in which
a QoS 2 message only gets an identifier that is at rest: the messages reach the application
at most once and in order, and none is lost that neither awaits its PUBREC nor was given
up. -/
theorem delivered_always (cfg : RetryConfig) (s : Session) (hqueue : s.inflight = [])
    (steps : List LinkStep) (hrest : Machine.Meets (step cfg) AtRest (start s) steps) :
    Machine.Always (step cfg) Delivered (start s) steps := by
  refine Machine.always_of_meets (fun l => ∃ v, l.Numbers v ∧ (v.state l).Inv) AtRest ?_ ?_ ?_ hrest
  · rintro l st l' ⟨v, hv, hinv⟩ hrest hstep
    obtain ⟨v', hv', hreaches⟩ := hv.step hinv hrest hstep
    exact ⟨v', hv', hinv.reaches hreaches⟩
  · rintro l ⟨v, hv, hinv⟩
    exact hv.delivered hinv
  · exact exists_numbers_start hqueue

def twoMessages : List LinkStep :=
  [.handle (.call (.deliver "t" [1] .exactlyOnce false 0)), .read, .resume 1,
    .handle (.call (.deliver "t" [2] .exactlyOnce false 2)), .read, .answer, .read, .read, .answer,
    .answer, .handle (.call (.tickRetries 9)), .read, .read, .answer]

theorem delivered_twoMessages :
    (∃ l, Machine.run (step ⟨5, 5, 60⟩) (start (Session.new "c" (some []) 0 1)) twoMessages = some l ∧
      l.client.log = [⟨"t", [1], .exactlyOnce, false⟩, ⟨"t", [2], .exactlyOnce, false⟩]) ∧
      Machine.Always (step ⟨5, 5, 60⟩) Delivered (start (Session.new "c" (some []) 0 1))
        twoMessages := by
  refine ⟨⟨_, rfl, by decide +kernel⟩, ?_⟩
  exact delivered_always ⟨5, 5, 60⟩ _ rfl twoMessages (by decide +kernel)

end Link

end Relay
