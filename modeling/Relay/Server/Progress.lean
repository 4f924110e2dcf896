import Relay.Server.AtLeastOnce

/-! # A link that is left to itself

After a reconnect the session has sent its whole queue again. If the client reads what is
on the line and its replies are handled, in any order, this comes to an end, and then the
queue is empty.
-/

namespace Relay

/-- What a client replies to a packet. -/
def Packet.reply : Packet → Option Ack
  | .publishRelease pid => some (.pubcomp pid)
  | .publish p =>
      match p.qos, p.packetId with
      | .exactlyOnce, some pid => some (.pubrec pid)
      | .atLeastOnce, some pid => some (.puback pid)
      | _, _ => none

/-- A packet is answered as it is read. -/
theorem Client.replies_read (c : Client) (packet : Packet) :
    (c.read packet).line = c.line ∧ (c.read packet).replies = c.replies ++ packet.reply.toList := by
  unfold Client.read
  split
  next => exact ⟨rfl, rfl⟩
  next p =>
    split
    next hqos hpid => split <;> simp [Packet.reply, hqos, hpid]
    next hqos hpid => simp [Packet.reply, hqos, hpid]
    next hno hno' =>
      refine ⟨rfl, ?_⟩
      rw [Packet.reply]
      split
      next hqos hpid => exact absurd hpid (hno _ hqos)
      next hqos hpid => exact absurd hpid (hno' _ hqos)
      next => simp

namespace Inflight

def awaited : Inflight → Option Ack
  | .qos1 p => p.packetId.map .puback
  | .qos2AwaitRec p => p.packetId.map .pubrec
  | .qos2AwaitComp pid => some (.pubcomp pid)

theorem awaited_eq_puback {state : Inflight} {pid : Nat} :
    state.awaited = some (.puback pid) ↔ ∃ p, state = .qos1 p ∧ p.packetId = some pid := by
  cases state <;> simp [awaited]

theorem awaited_eq_pubcomp {state : Inflight} {pid : Nat} :
    state.awaited = some (.pubcomp pid) ↔ state = .qos2AwaitComp pid := by
  cases state <;> simp [awaited]

def recId : Inflight → Option Nat
  | .qos2AwaitRec p => p.packetId
  | _ => none

/-- What is sent again for the message asks for the reply that it awaits. -/
def Sound (state : Inflight) : Prop :=
  ∃ ack, state.awaited = some ack ∧ state.redelivery.reply = some ack

theorem sound_awaitComp (pid : Nat) : (Inflight.qos2AwaitComp pid).Sound :=
  ⟨.pubcomp pid, rfl, rfl⟩

end Inflight

theorem Handling.Move.sound {cfg : RetryConfig} {online : Bool} {e e' : InflightEntry}
    {hd : Handling} {note : Trace} (hmove : hd.Move cfg online e (some e') note)
    (hsound : e.state.Sound) : e'.state.Sound := by
  cases hmove with
  | received pid p => exact Inflight.sound_awaitComp pid
  | _ => exact hsound

/-- A message awaits the reply that it awaited before, or its PUBREC was handled. -/
theorem Handling.Move.awaited {cfg : RetryConfig} {online : Bool} {e e' : InflightEntry}
    {hd : Handling} {note : Trace} (hmove : hd.Move cfg online e (some e') note) :
    e'.state.awaited = e.state.awaited ∨
      ∃ pid, hd = .call (.onPubrec pid) ∧ e.state.awaited = some (.pubrec pid) ∧
        e'.state = .qos2AwaitComp pid := by
  cases hmove with
  | received pid p hstate hpid =>
      exact Or.inr ⟨pid, rfl, by rw [hstate, Inflight.awaited, hpid]; rfl, rfl⟩
  | _ => exact Or.inl rfl

namespace Session

variable {cfg : RetryConfig} {s s' : Session} {hd : Handling} {dead : List DeadMsg}

def Sound (s : Session) : Prop := ∀ e ∈ s.inflight, e.state.Sound

/-- Every message in the queue keeps asking for the reply it awaits. -/
theorem Sound.handle (hs : s.Sound) (hhandle : s.handle cfg hd = some (s', dead)) : s'.Sound := by
  intro e he
  rcases entry_of_handle hhandle he with ⟨e₀, he₀, note, hmove⟩ | ⟨b, hb, rfl⟩
  · exact hmove.sound (hs e₀ he₀)
  · obtain ⟨p, hpid, -, ⟨hstate, hqos⟩ | ⟨hstate, hqos⟩, -⟩ := Handling.born_cases hb
    · rw [hstate]
      exact ⟨.puback s.nextId, by simp [Inflight.awaited, hpid],
        by simp [Inflight.redelivery, Packet.reply, hqos, hpid]⟩
    · rw [hstate]
      exact ⟨.pubrec s.nextId, by simp [Inflight.awaited, hpid],
        by simp [Inflight.redelivery, Packet.reply, hqos, hpid]⟩

def recIds (queue : List InflightEntry) : List Nat := queue.filterMap fun e => e.state.recId

theorem mem_recIds {queue : List InflightEntry} {pid : Nat} :
    pid ∈ recIds queue ↔ ∃ e ∈ queue, e.state.awaited = some (.pubrec pid) := by
  rw [recIds, List.mem_filterMap]
  refine exists_congr fun e => and_congr_right fun _ => ?_
  cases e.state <;> simp [Inflight.awaited, Inflight.recId]

/-- Only the first message that awaits a PUBREC is moved on by it. -/
theorem not_mem_recIds_awaitComp (pid : Nat) {queue : List InflightEntry}
    (hnodup : (recIds queue).Nodup) : pid ∉ recIds ((awaitComp pid queue).getD queue) := by
  induction queue with
  | nil => exact List.not_mem_nil
  | cons e rest ih =>
      have hskip : e.state.recId ≠ some pid →
          pid ∉ recIds (((awaitComp pid rest).map (e :: ·)).getD (e :: rest)) := by
        intro hne
        have hrest : pid ∉ recIds ((awaitComp pid rest).getD rest) := by
          refine ih (hnodup.sublist ?_)
          exact (List.sublist_cons_self e rest).filterMap _
        have hcons : ((awaitComp pid rest).map (e :: ·)).getD (e :: rest) =
            e :: (awaitComp pid rest).getD rest := by
          cases awaitComp pid rest <;> rfl
        rw [hcons, recIds, List.mem_filterMap]
        rintro ⟨e', he', hid⟩
        rcases List.mem_cons.mp he' with rfl | he'
        · exact hne hid
        · exact hrest (List.mem_filterMap.mpr ⟨e', he', hid⟩)
      unfold awaitComp
      split
      next p hstate =>
        have hid : e.state.recId = p.packetId := by rw [hstate]; rfl
        split
        next hpid =>
          have hcons : recIds (e :: rest) = pid :: recIds rest :=
            List.filterMap_cons_some (hid.trans hpid)
          rw [hcons, List.nodup_cons] at hnodup
          exact hnodup.1
        next hpid => exact hskip (hid ▸ hpid)
      next hstate =>
        refine hskip ?_
        cases hcase : e.state with
        | qos2AwaitRec p => exact absurd hcase (hstate p)
        | qos1 p => exact Option.some_ne_none pid ∘ Eq.symm
        | qos2AwaitComp pid' => exact Option.some_ne_none pid ∘ Eq.symm

theorem queue_onPubrec (s : Session) (pid : Nat) :
    (s.onPubrec pid).inflight = (awaitComp pid s.inflight).getD s.inflight := by
  unfold onPubrec
  cases awaitComp pid s.inflight with
  | some queue => rfl
  | none => by_cases hpid : pid = 0 <;> simp [hpid, send]

/-- After a reply no message awaits it. -/
theorem awaited_ne_of_apply (hnodup : (recIds s.inflight).Nodup) {ack : Ack} {e : InflightEntry}
    (he : e ∈ (ack.apply s).inflight) : e.state.awaited ≠ some ack := by
  intro hawaited
  cases ack with
  | puback pid =>
      obtain ⟨p, hstate, hpid⟩ := Inflight.awaited_eq_puback.mp hawaited
      have hkept := (List.mem_filter.mp he).2
      rw [hstate] at hkept
      exact of_decide_eq_true hkept hpid
  | pubcomp pid =>
      have hkept := (List.mem_filter.mp he).2
      exact of_decide_eq_true hkept (Inflight.awaited_eq_pubcomp.mp hawaited)
  | pubrec pid =>
      have he' : e ∈ (s.onPubrec pid).inflight := he
      rw [queue_onPubrec] at he'
      exact not_mem_recIds_awaitComp pid hnodup (mem_recIds.mpr ⟨e, he', hawaited⟩)

end Session

/-! ## What is under way -/

/-- How many more packets and replies one that is under way can bring about, itself
included. -/
def Packet.weight : Packet → Nat
  | .publishRelease _ => 2
  | .publish p =>
      match p.qos with
      | .exactlyOnce => 4
      | .atLeastOnce => 2
      | .atMostOnce => 1

def Ack.weight : Ack → Nat
  | .puback _ => 1
  | .pubrec _ => 3
  | .pubcomp _ => 1

/-- A reply weighs less than the packet it is for. -/
theorem Packet.weight_reply (packet : Packet) :
    (packet.reply.toList.map Ack.weight).sum < packet.weight := by
  cases packet with
  | publishRelease pid => simp [reply, weight, Ack.weight]
  | publish p =>
      cases hqos : p.qos <;> cases hpid : p.packetId <;> simp [reply, weight, hqos, hpid, Ack.weight]

theorem Packet.weight_le (packet : Packet) : packet.weight ≤ 4 := by
  cases packet with
  | publishRelease pid => simp [weight]
  | publish p => cases hqos : p.qos <;> simp [weight, hqos]

def Client.weight (c : Client) : Nat := (c.line.map Packet.weight).sum + (c.replies.map Ack.weight).sum

namespace Link

variable {cfg : RetryConfig} {l l' : Link} {first : Nat}

/-- The client reads, or a reply of this connection is handled. -/
def Exchanges (st : LinkStep) : Prop := st = .read ∨ st = .answer

/-- What a reply makes the session send. -/
theorem putSince_apply (s : Session) (ack : Ack) :
    s.putSince (ack.apply s) = [] ∨
      ∃ pid, ack = .pubrec pid ∧ s.putSince (ack.apply s) = [pubrel pid] := by
  cases ack with
  | puback pid => exact Or.inl (by simp [Session.putSince, Ack.apply, Session.onPuback])
  | pubcomp pid => exact Or.inl (by simp [Session.putSince, Ack.apply, Session.onPubcomp])
  | pubrec pid =>
      have hput := putSince_onPubrec s pid
      unfold pubrels at hput
      split at hput
      · split at hput
        · exact Or.inr ⟨pid, rfl, hput⟩
        · exact Or.inl hput
      · exact Or.inl hput

/-- What the broker sends on a reply weighs less than the reply. -/
theorem weight_apply (s : Session) (ack : Ack) :
    ((s.putSince (ack.apply s)).map Packet.weight).sum < ack.weight := by
  rcases putSince_apply s ack with hnone | ⟨pid, rfl, hput⟩
  · rw [hnone]
    cases ack <;> simp [Ack.weight]
  · rw [hput]
    simp [Packet.weight, Ack.weight, pubrel]

/-- Each of these steps uses something up. -/
theorem weight_step {st : LinkStep} (hst : Exchanges st) (hstep : l.step cfg st = some l') :
    l'.client.weight < l.client.weight := by
  rcases hst with rfl | rfl
  · rw [Link.step] at hstep
    split at hstep
    · cases hstep
    next packet rest hline =>
      cases hstep
      obtain ⟨hsame, hreplies⟩ := Client.replies_read { l.client with line := rest } packet
      have hless := packet.weight_reply
      rw [Client.weight, Client.weight, hsame, hreplies, hline, List.map_append, List.sum_append,
        List.map_cons, List.sum_cons]
      simp only
      omega
  · rw [Link.step] at hstep
    split at hstep
    · cases hstep
    next ack rest hreplies =>
      rw [Link.handle, Ack.handle] at hstep
      cases hstep
      have hless := weight_apply l.session ack
      rw [Client.weight, Client.weight, hreplies, List.map_append, List.sum_append,
        List.map_cons, List.sum_cons]
      simp only
      omega

/-- For every message in the queue the reply that it awaits is under way, or a packet that
the client will reply to so. -/
structure Pending (l : Link) : Prop where
  online : l.session.tx.isSome = true
  entries : ∀ e ∈ l.session.inflight, ∃ ack, e.state.awaited = some ack ∧
    ((∃ packet ∈ l.client.line, packet.reply = some ack) ∨ ack ∈ l.client.replies)

/-- With nothing under way nothing is awaited. -/
theorem Pending.inflight_eq_nil (hl : l.Pending) (hline : l.client.line = [])
    (hreplies : l.client.replies = []) : l.session.inflight = [] := by
  rw [List.eq_nil_iff_forall_not_mem]
  intro e he
  obtain ⟨ack, -, ⟨packet, hpacket, -⟩ | hack⟩ := hl.entries e he
  · rw [hline] at hpacket
    cases hpacket
  · rw [hreplies] at hack
    cases hack

/-- The whole queue is sent again. -/
theorem pending_resume (hsound : l.session.Sound) {now : Nat}
    (hstep : l.step cfg (.resume now) = some l') : l'.Pending := by
  cases hstep
  refine ⟨rfl, fun e he => ?_⟩
  obtain ⟨e₀, he₀, rfl⟩ := List.mem_map.mp he
  obtain ⟨ack, hawaited, hreply⟩ := hsound e₀ he₀
  refine ⟨ack, hawaited, Or.inl ⟨e₀.state.redelivery, ?_, hreply⟩⟩
  exact List.mem_map_of_mem he₀

theorem weight_resume {now : Nat} (hstep : l.step cfg (.resume now) = some l') :
    l'.client.weight ≤ 4 * l.session.inflight.length := by
  cases hstep
  have hline : (l.session.inflight.map fun e => e.state.redelivery.weight).sum ≤
      l.session.inflight.length • 4 := by
    refine (List.sum_le_card_nsmul _ 4 fun w hw => ?_).trans_eq (by rw [List.length_map])
    obtain ⟨e, -, rfl⟩ := List.mem_map.mp hw
    exact e.state.redelivery.weight_le
  simpa [Client.weight, Client.reconnect, Session.retransmit, Function.comp_def, Nat.mul_comm]
    using hline

theorem issued_resume {now : Nat} (hstep : l.step cfg (.resume now) = some l') :
    l'.issued = l.issued := by
  cases hstep
  rfl

/-- The reply takes the place of the packet. -/
theorem Pending.read (hl : l.Pending) (hstep : l.step cfg .read = some l') : l'.Pending := by
  rw [Link.step] at hstep
  split at hstep
  · cases hstep
  next packet rest hline =>
    cases hstep
    obtain ⟨hsame, hreplies⟩ := Client.replies_read { l.client with line := rest } packet
    refine ⟨hl.online, fun e he => ?_⟩
    obtain ⟨ack, hawaited, hway⟩ := hl.entries e he
    refine ⟨ack, hawaited, ?_⟩
    rw [hsame, hreplies]
    rcases hway with ⟨packet', hpacket', hreply⟩ | hack
    · rw [hline] at hpacket'
      rcases List.mem_cons.mp hpacket' with rfl | hrest
      · exact Or.inr (List.mem_append_right _ (Option.mem_toList.mpr hreply))
      · exact Or.inl ⟨packet', hrest, hreply⟩
    · exact Or.inr (List.mem_append_left _ hack)

/-- A message that a PUBREC is for gets its PUBREL. -/
theorem pubrel_mem_putSince {s : Session} (honline : s.tx.isSome = true) {pid : Nat}
    (hnodup : (Session.recIds s.inflight).Nodup) (hpid : pid ∈ Session.recIds s.inflight) :
    pubrel pid ∈ s.putSince (s.onPubrec pid) := by
  have hfound : (Session.awaitComp pid s.inflight).isSome = true := by
    by_contra hnone
    have hleft := Session.not_mem_recIds_awaitComp pid hnodup
    rw [Option.not_isSome_iff_eq_none.mp hnone] at hleft
    exact hleft hpid
  rw [putSince_onPubrec, if_pos honline, pubrels, if_pos (Or.inl hfound)]
  exact List.mem_cons_self

theorem isSome_tx_apply (s : Session) (ack : Ack) : (ack.apply s).tx.isSome = s.tx.isSome := by
  cases ack with
  | pubrec pid =>
      obtain ⟨queue, packets, heq⟩ := s.exists_onPubrec pid
      rw [Ack.apply, heq, Option.isSome_map]
  | _ => rfl

/-- Handling a reply removes the message that awaited it, or sends it on with a PUBREL. -/
theorem Pending.answer (hl : l.Pending) (hnodup : (Session.recIds l.session.inflight).Nodup)
    (hstep : l.step cfg .answer = some l') : l'.Pending := by
  rw [Link.step] at hstep
  split at hstep
  · cases hstep
  next ack rest hreplies =>
    rw [Link.handle, Ack.handle] at hstep
    cases hstep
    refine ⟨(isSome_tx_apply l.session ack).trans hl.online, fun e he => ?_⟩
    have hne := Session.awaited_ne_of_apply hnodup he
    rcases Session.entry_of_handle (Ack.handle cfg l.session ack) he with
      ⟨e₀, he₀, note, hmove⟩ | ⟨b, hb, -⟩
    · rcases hmove.awaited with hsame | ⟨pid, hop, hawaited, hstate⟩
      · obtain ⟨ack', hawaited, ⟨packet, hpacket, hreply⟩ | hack⟩ := hl.entries e₀ he₀
        · exact ⟨ack', hsame.trans hawaited,
            Or.inl ⟨packet, List.mem_append_left _ hpacket, hreply⟩⟩
        · refine ⟨ack', hsame.trans hawaited, Or.inr ?_⟩
          rw [hreplies] at hack
          rcases List.mem_cons.mp hack with rfl | hrest
          · exact absurd (hsame.trans hawaited) hne
          · exact hrest
      · -- the PUBREL is on the line
        obtain rfl : ack = .pubrec pid := by
          cases ack <;> cases hop
          rfl
        refine ⟨.pubcomp pid, by rw [hstate]; rfl, Or.inl ⟨pubrel pid, ?_, rfl⟩⟩
        refine List.mem_append_right _ (pubrel_mem_putSince hl.online hnodup ?_)
        exact Session.mem_recIds.mpr ⟨e₀, he₀, hawaited⟩
    · cases ack <;> cases hb

/-! ## Coming to rest -/

/-- The identifiers of a link that is an exchange are distinct. -/
theorem Numbers.nodup_recIds {v : Numbering} (hv : l.Numbers v) (hinv : (v.state l).Inv) :
    (Session.recIds l.session.inflight).Nodup := by
  refine hinv.ids.sublist ?_
  rw [← hv.queue, Session.recIds, List.filterMap_map, Numbering.state, List.map_filterMap]
  induction v.roster.items with
  | nil => exact List.Sublist.refl _
  | cons x rest ih =>
      rw [List.filterMap_cons, List.filterMap_cons]
      cases hstate : x.2.state with
      | qos1 p => simpa [Inflight.recId, Inflight.item, hstate] using ih
      | qos2AwaitComp pid => simpa [Inflight.recId, Inflight.item, hstate] using ih.cons pid
      | qos2AwaitRec p =>
          cases hpid : p.packetId with
          | none => simpa [Inflight.recId, Inflight.item, hstate, hpid] using ih
          | some pid => simpa [Inflight.recId, Inflight.item, hstate, hpid] using ih

theorem sound_step {st : LinkStep} (hl : l.session.Sound) (hstep : l.step cfg st = some l') :
    l'.session.Sound := by
  have hhandle : ∀ {l₁ : Link} {hd : Handling}, l₁.handle cfg hd = some l' →
      l₁.session.inflight = l.session.inflight → l'.session.Sound := by
    intro l₁ hd hhandle hsame
    obtain ⟨s', dead, hsession, rfl⟩ := exists_of_handle hhandle
    have hl₁ : l₁.session.Sound := by rwa [Session.Sound, hsame]
    exact hl₁.handle hsession
  cases stepped hstep with
  | handled hd _ h => exact hhandle h rfl
  | resumed now h => exact hhandle h rfl
  | read packet rest _ hafter => rw [hafter]; exact hl
  | answered ack replies late _ _ _ h => exact hhandle h rfl

/-- Nothing is delivered or given up in an exchange. -/
theorem offered_exchanges {st : LinkStep} (hst : Exchanges st) (hstep : l.step cfg st = some l') :
    l'.offered = l.offered := by
  rcases hst with rfl | rfl
  · rw [Link.step] at hstep
    split at hstep
    · cases hstep
    · cases hstep; rfl
  · rw [Link.step] at hstep
    split at hstep
    · cases hstep
    next ack rest hreplies =>
      rw [Link.handle, Ack.handle] at hstep
      cases hstep
      cases ack <;> simp [Ack.op, Handling.offer]

/-- What every step of the link keeps. -/
structure Keeps (first : Nat) (l : Link) : Prop where
  fresh : l.Fresh first
  confirmed : l.Confirmed first
  sound : l.session.Sound

theorem Keeps.step {st : LinkStep} (hl : l.Keeps first) (hstep : l.step cfg st = some l') :
    l'.Keeps first :=
  ⟨hl.fresh.step hstep, hl.confirmed.step hstep, sound_step hl.sound hstep⟩

theorem keeps_start {s : Session} (hqueue : s.inflight = []) (hid : s.nextId = idAt first 0) :
    (start s).Keeps first := by
  refine ⟨fresh_start hqueue hid, confirmed_start hqueue hid, ?_⟩
  rw [Session.Sound, show (start s).session.inflight = [] from hqueue]
  exact List.forall_mem_nil _

theorem Pending.exchanges (hl : l.Pending) (hkeeps : l.Keeps first) (hfew : l.issued ≤ 65535)
    {st : LinkStep} (hst : Exchanges st) (hstep : l.step cfg st = some l') : l'.Pending := by
  rcases hst with rfl | rfl
  · exact hl.read hstep
  · obtain ⟨⟨v, hv, hinv⟩, -⟩ := hkeeps.fresh hfew
    exact hl.answer (hv.nodup_recIds hinv) hstep

structure Settled (l : Link) : Prop where
  qos2 : (∀ msg ∈ l.dropped, msg.publish.message.isQos2 = false) →
    l.client.log.filter Message.isQos2 = l.offered.filter Message.isQos2
  qos1 : (l.offered.filter Message.isQos1).Subperm
    ((l.client.log ++ l.givenUp).filter Message.isQos1)

/-- An empty queue means that every message was confirmed or given up. -/
theorem Keeps.settled (hl : l.Keeps first) (hfew : l.issued ≤ 65535)
    (hempty : l.session.inflight = []) : l.Settled := by
  obtain ⟨⟨v, hv, hinv⟩, -⟩ := hl.fresh hfew
  obtain ⟨passed, hconfirms⟩ := hl.confirmed hfew
  refine ⟨fun hnone => (hv.delivered hinv).settled hnone ?_, ?_⟩
  · rw [awaiting, hempty]
    rfl
  · have hsubperm := hconfirms.subperm hfew
    rwa [unconfirmed, hempty, List.filterMap_nil, List.append_nil] at hsubperm

end Link

/-! ## Under the hub -/

namespace Subscriber

variable {id : ClientId} {b b' : Subscriber} {first : Nat}

def Exchanges (st : SubscriberStep) : Prop := st = .read ∨ st = .answer

theorem link_of_exchanges {st : SubscriberStep} (hst : Exchanges st)
    (hstep : b.step id st = some b') :
    ∃ lst, Link.Exchanges lst ∧ b.link.step b.hub.retry lst = some b'.link := by
  rcases hst with rfl | rfl
  · obtain ⟨l, hl, rfl⟩ := Option.map_eq_some_iff.mp hstep
    exact ⟨.read, Or.inl rfl, hl⟩
  · rw [step] at hstep
    split at hstep
    · obtain ⟨a, -, hstep⟩ := Option.bind_eq_some_iff.mp hstep
      obtain ⟨hub, -, hstep⟩ := Option.bind_eq_some_iff.mp hstep
      obtain ⟨l, hl, rfl⟩ := Option.map_eq_some_iff.mp hstep
      exact ⟨.answer, Or.inr rfl, hl⟩
    · cases hstep

/-- The session is not removed in an exchange. -/
theorem isSome_lookup_of_exchanges {st : SubscriberStep} (hst : Exchanges st)
    (hstep : b.step id st = some b') (hthere : (b.hub.sessions.byId.lookup id).isSome = true) :
    (b'.hub.sessions.byId.lookup id).isSome = true := by
  rcases hst with rfl | rfl
  · obtain ⟨l, hl, rfl⟩ := Option.map_eq_some_iff.mp hstep
    exact hthere
  · rw [step, if_pos hthere] at hstep
    obtain ⟨a, -, hstep⟩ := Option.bind_eq_some_iff.mp hstep
    obtain ⟨hub, hact, hstep⟩ := Option.bind_eq_some_iff.mp hstep
    obtain ⟨l, hl, rfl⟩ := Option.map_eq_some_iff.mp hstep
    cases hact
    obtain ⟨s, hs⟩ := Option.isSome_iff_exists.mp hthere
    simp only [Hub.acknowledge, hs, Hub.lookup_setSession hs, if_true, Option.isSome_some]

/-- A subscriber on its way to rest. -/
structure Draining (id : ClientId) (first : Nat) (b : Subscriber) : Prop where
  follows : b.Follows id (Link.Keeps first)
  few : b.link.issued ≤ 65535
  pending : b.link.Pending
  there : (b.hub.sessions.byId.lookup id).isSome = true

/-- Every exchange makes what is under way lighter. -/
theorem Draining.step (hb : b.Draining id first) {st : SubscriberStep} (hst : Exchanges st)
    (hstep : b.step id st = some b') :
    b'.Draining id first ∧ b'.link.client.weight < b.link.client.weight := by
  obtain ⟨lst, hlst, hl⟩ := link_of_exchanges hst hstep
  have hissued : b'.link.issued = b.link.issued := by
    rw [Link.issued, Link.issued, Link.numbered, Link.numbered, Link.offered_exchanges hlst hl]
  refine ⟨⟨?_, hissued ▸ hb.few, ?_, ?_⟩, Link.weight_step hlst hl⟩
  · exact hb.follows.step (fun _ _ _ _ hl hstep => hl.step hstep) hstep
  · exact hb.pending.exchanges hb.follows.inv hb.few hlst hl
  · exact isSome_lookup_of_exchanges hst hstep hb.there

/-- When no exchange is possible, nothing is under way. -/
theorem quiet_of_stuck (hthere : (b.hub.sessions.byId.lookup id).isSome = true)
    (hread : b.step id .read = none) (hanswer : b.step id .answer = none) :
    b.link.client.line = [] ∧ b.link.client.replies = [] := by
  constructor
  · cases hline : b.link.client.line with
    | nil => rfl
    | cons packet rest => simp [step, Link.step, hline] at hread
  · cases hreplies : b.link.client.replies with
    | nil => rfl
    | cons ack rest =>
        simp [step, hthere, acknowledge, hreplies, Hub.act, Link.step, Link.handle, Ack.handle]
          at hanswer

/-- When neither side has anything left to do, the queue is empty. -/
theorem Draining.settled (hb : b.Draining id first) (hread : b.step id .read = none)
    (hanswer : b.step id .answer = none) :
    (∃ s, b.hub.sessions.byId.lookup id = some s ∧ s.inflight = []) ∧ b.link.Settled := by
  obtain ⟨hline, hreplies⟩ := quiet_of_stuck hb.there hread hanswer
  have hempty := hb.pending.inflight_eq_nil hline hreplies
  obtain ⟨s, hs⟩ := Option.isSome_iff_exists.mp hb.there
  refine ⟨⟨s, hs, ?_⟩, hb.follows.inv.settled hb.few hempty⟩
  rw [hb.follows.alike s hs]
  exact hempty

/-- The client takes its session up again. -/
theorem Follows.resume (hb : b.Follows id (Link.Keeps first)) (hfew : b.link.issued ≤ 65535)
    {client : String} (hclient : b.hub.sessions.idOf.lookup client = some id)
    {expirySecs now : Nat} (hstep : b.step id (.act (.connect client false expirySecs now)) = some b') :
    b'.Draining id first ∧ b'.link.client.weight ≤ 4 * b.link.session.inflight.length := by
  have hfollows := hb.step (fun _ _ _ _ hl hstep => hl.step hstep) hstep
  rw [Subscriber.step, if_pos (show Section.unasked id _ = true from rfl)] at hstep
  obtain ⟨hub, hact, rfl⟩ := Option.map_eq_some_iff.mp hstep
  obtain ⟨⟨c, hub'⟩, hconnect, rfl⟩ := Option.map_eq_some_iff.mp hact
  rcases Hub.connect_cases hconnect with
    ⟨hnone, -, -⟩ | ⟨id', -, hclean, -⟩ | ⟨id', s, hid', -, hs, -, hhub⟩
  · rw [hclient] at hnone
    cases hnone
  · cases hclean
  · rw [hclient] at hid'
    cases hid'
    have hresume : b.link.step b.hub.retry (.resume now) =
        some (b.follow id (.connect client false expirySecs now)) := by
      rw [follow, hs]
      simp [Section.linkSteps, hclient, Machine.run, Link.step]
    refine ⟨⟨hfollows, ?_, Link.pending_resume hb.inv.sound hresume, ?_⟩, Link.weight_resume hresume⟩
    · exact (Link.issued_resume hresume).trans_le hfew
    · have hs₁ : b.hub.bumpGeneration.sessions.byId.lookup id = some s := hs
      have hset : ∀ s', ((b.hub.bumpGeneration.setSession id s').sessions.byId.lookup id).isSome =
          true := by
        intro s'
        rw [Hub.lookup_setSession hs₁, if_pos rfl]
        rfl
      rw [hhub, Hub.persistMeta]
      split <;> exact hset _

/-- After its client has taken it up again, a session that is left to itself empties its
queue: reading and answering go on until then, and end after four steps for each message. -/
theorem queue_drains (h : Hub) (id : ClientId) (s : Session) (hcons : h.Consistent)
    (hs : h.sessions.byId.lookup id = some s) (hqueue : s.inflight = [])
    (hid : 0 < s.nextId) (hmax : s.nextId ≤ 65535) (steps : List SubscriberStep)
    (b b₀ b' : Subscriber) (hrun : Machine.run (step id) ⟨h, .start s⟩ steps = some b)
    (hfew : b.link.issued ≤ 65535) (client : String) (expirySecs now : Nat)
    (hclient : b.hub.sessions.idOf.lookup client = some id)
    (hresume : b.step id (.act (.connect client false expirySecs now)) = some b₀)
    (more : List SubscriberStep) (hmore : ∀ st ∈ more, Exchanges st)
    (hrun' : Machine.run (step id) b₀ more = some b') :
    more.length ≤ 4 * b.link.session.inflight.length ∧
      (b'.step id .read = none → b'.step id .answer = none →
        (∃ s', b'.hub.sessions.byId.lookup id = some s' ∧ s'.inflight = []) ∧ b'.link.Settled) := by
  have hinit : Follows id (Link.Keeps (s.nextId - 1)) ⟨h, .start s⟩ :=
    follows_start hcons hs (Link.keeps_start hqueue (by rw [Link.idAt]; omega))
  have hfollows := Machine.run_invariant
    (fun _ _ _ hb hstep => hb.step (fun _ _ _ _ hl hstep => hl.step hstep) hstep) hinit hrun
  obtain ⟨hdraining, hweight⟩ := hfollows.resume hfew hclient hresume
  obtain ⟨hlast, hlength⟩ := Machine.length_add_le_of_run (fun b => b.link.client.weight)
    (fun _ _ _ hst hb hstep => hb.step hst hstep) hmore hdraining hrun'
  exact ⟨by omega, hlast.settled⟩

def twoWaiting : List SubscriberStep :=
  [.act (.detach 1 1), .act (.deliver [(1, .exactlyOnce)] "t" [7] .exactlyOnce 0),
    .act (.deliver [(1, .exactlyOnce)] "t" [8] .atLeastOnce 0)]

theorem queue_drains_twoWaiting :
    ∃ h s b b₀ b' s', (Hub.new none ⟨5, 5, 60⟩ 0 0).act (.connect "c" true 60 0) = some h ∧
      h.sessions.byId.lookup 1 = some s ∧
      Machine.run (step 1) ⟨h, .start s⟩ twoWaiting = some b ∧
      b.step 1 (.act (.connect "c" false 60 1)) = some b₀ ∧
      Machine.run (step 1) b₀ [.read, .read, .answer, .answer, .read, .answer] = some b' ∧
      b'.hub.sessions.byId.lookup 1 = some s' ∧ s'.inflight = [] ∧ b'.link.Settled := by
  have hrun : ∃ h s b b₀ b', (Hub.new none ⟨5, 5, 60⟩ 0 0).act (.connect "c" true 60 0) = some h ∧
      h.sessions.byId.lookup 1 = some s ∧ s.inflight = [] ∧ s.nextId = 1 ∧
      Machine.run (step 1) ⟨h, .start s⟩ twoWaiting = some b ∧ b.link.issued = 2 ∧
      b.hub.sessions.idOf.lookup "c" = some 1 ∧
      b.step 1 (.act (.connect "c" false 60 1)) = some b₀ ∧
      Machine.run (step 1) b₀ [.read, .read, .answer, .answer, .read, .answer] = some b' ∧
      b'.step 1 .read = none ∧ b'.step 1 .answer = none :=
    ⟨_, _, _, _, _, rfl, rfl, rfl, rfl, rfl, rfl, rfl, rfl, rfl, rfl, rfl⟩
  obtain ⟨h, s, b, b₀, b', hact, hs, hqueue, hid, hsteps, hissued, hclient, hresume, hmore, hread,
    hanswer⟩ := hrun
  have hdrains := queue_drains h 1 s ((Hub.consistent_new none ⟨5, 5, 60⟩ 0 0).effect
    (Hub.act_effect hact)) hs hqueue (by omega) (by omega) twoWaiting b b₀ b' hsteps (by omega) "c"
    60 1 hclient hresume _ (by simp [Exchanges]) hmore
  obtain ⟨⟨s', hs', hempty⟩, hsettled⟩ := hdrains.2 hread hanswer
  exact ⟨h, s, b, b₀, b', s', hact, hs, hsteps, hresume, hmore, hs', hempty, hsettled⟩

end Subscriber

end Relay
