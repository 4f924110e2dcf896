import Relay.Server.Handler
import Relay.Server.Replay

/-! # Replays stay within the permissions

A replay request is authorised on its filter, before the events are looked at;
the events are selected by their topics. Nothing a replay streams lies outside
the subscribe permissions, because the log has no topics that begin with `$`,
also when a topic is too long for its length field and comes back cut short.
-/

namespace Relay

/-! ## What the log can hold -/

/-- A topic that is journalled. -/
def Event.Plain (e : Event) : Prop := Text.startsWithChar '$' e.topic = false

namespace Storage

/-- Pruning brings no row back. -/
theorem mem_events_appendEvent {st : Storage} {blob : Bytes} {retention : Nat} {row : Nat × Bytes}
    (hrow : row ∈ (st.appendEvent blob retention).events.toList) :
    row ∈ st.events.toList ∨ row.2 = blob := by
  have hinserted : row ∈ (st.events.insert (nextKey st.events) blob).toList := by
    simp only [appendEvent] at hrow
    split at hrow
    · rw [toList_prune _ _ _ (Nat.le_refl _)] at hrow
      exact List.mem_of_mem_drop hrow
    · exact hrow
  rcases Table.mem_toList_of_insert hinserted with rfl | hold
  · exact Or.inr rfl
  · exact Or.inl hold

/-- Rows of the log come from the start or from an append among the writes. -/
theorem mem_events_foldl {ops : List PersistOp} {st : Storage} {row : Nat × Bytes}
    (hrow : row ∈ (ops.foldl applyPersistOp st).events.toList) :
    row ∈ st.events.toList ∨ ∃ event ∈ ops.filterMap PersistOp.event?, event.1 = row.2 := by
  induction ops generalizing st with
  | nil => exact Or.inl hrow
  | cons op ops ih =>
      rw [List.foldl_cons] at hrow
      rcases ih hrow with hfirst | ⟨event, hevent, hblob⟩
      · cases hop : op.event? with
        | none =>
            rw [events_applyPersistOp st hop] at hfirst
            exact Or.inl hfirst
        | some event =>
            obtain ⟨blob, retention⟩ := event
            have happend : st.applyPersistOp op = st.appendEvent blob retention := by
              cases op <;> cases hop
              rfl
            rw [happend] at hfirst
            refine (mem_events_appendEvent hfirst).imp_right fun hblob => ?_
            exact ⟨_, List.mem_filterMap.mpr ⟨op, List.mem_cons_self, hop⟩, hblob.symm⟩
      · obtain ⟨op', hop', heq⟩ := List.mem_filterMap.mp hevent
        exact Or.inr ⟨event, List.mem_filterMap.mpr ⟨op', List.mem_cons_of_mem op hop', heq⟩, hblob⟩

end Storage

/-- Every row of the log is the record of a journalled publish. -/
def Hub.PlainLog (h : Hub) : Prop :=
  ∀ d ∈ h.disk, ∀ row ∈ d.storage.events.toList, ∃ e : Event, e.Plain ∧ row.2 = e.blob

/-- The journal takes no topic below `$`. -/
theorem journalled_plain {eventLogMax : Nat} {steps : List LogStep} {e : Event}
    (he : e ∈ journalled eventLogMax steps) : e.Plain := by
  obtain ⟨a, -, ha⟩ := List.mem_filterMap.mp he
  cases a with
  | publish e' =>
      simp only [LogStep.event?] at ha
      split at ha
      next hlogged =>
        cases ha
        exact Bool.eq_false_iff.mpr hlogged.2
      next => cases ha
  | flush _ => cases ha
  | work => cases ha
  | other _ => cases ha

/-- From startup on a log of journalled publishes, whatever goes on. -/
theorem Hub.plainLog_run {st : Storage} {log : List (Nat × Event)}
    (hlog : st.events.toList = log.map Event.row) (hplain : ∀ r ∈ log, r.2.Plain)
    {retry : RetryConfig} {eventLogMax now : Nat} {steps : List LogStep} {h : Hub}
    (hrun : Machine.run logStep (new (some st) retry eventLogMax now) steps = some h) :
    h.PlainLog := by
  obtain ⟨ops, d, hd, ⟨done, hqueue, hstorage, -⟩, -, hevents, -⟩ :=
    run_serves rfl (Disk.Serves.refl ⟨st, [], []⟩) hrun
  rintro d' hd' row hrow
  rw [hd] at hd'
  cases hd'
  rw [hstorage] at hrow
  rcases Storage.mem_events_foldl hrow with hold | ⟨event, hevent, hblob⟩
  · rw [hlog] at hold
    obtain ⟨r, hr, rfl⟩ := List.mem_map.mp hold
    exact ⟨r.2, hplain r hr, rfl⟩
  · -- what the worker has performed was queued by a publish
    have hqueued : event ∈ ops.filterMap PersistOp.event? := by
      have hall : ops = done ++ d.queue := hqueue
      rw [hall, List.filterMap_append]
      exact List.mem_append_left _ hevent
    rw [hevents] at hqueued
    obtain ⟨e, he, rfl⟩ := List.mem_map.mp hqueued
    exact ⟨e, journalled_plain he, hblob.symm⟩

/-! ## What a replay streams -/

open Wire in
/-- A journalled topic is read back without a leading `$`, cut short or not. -/
theorem decodeEvent_plain {e : Event} (hplain : e.Plain) {topic : String} {payload : Bytes}
    {qos : QoS} (hdecode : decodeEvent e.blob = some (topic, payload, qos)) :
    Text.startsWithChar '$' topic = false := by
  obtain ⟨ts, original, qos', content⟩ := e
  -- the length field holds the length modulo its width, which is no longer than the topic
  have hlen := readNat_beBytes_mod 2 (utf8 original).length (utf8 original ++ content)
  have hle : (utf8 original).length % 256 ^ 2 ≤ (utf8 original).length := Nat.mod_le _ _
  have hts := readBytes_append (beBytes 8 ts) (qos'.toU8 ::
    (beBytes 2 (utf8 original).length ++ (utf8 original ++ content)))
  rw [length_beBytes] at hts
  have hread : readBytes ((utf8 original).length % 256 ^ 2) (utf8 original ++ content) =
      some ((utf8 original).take ((utf8 original).length % 256 ^ 2),
        (utf8 original ++ content).drop ((utf8 original).length % 256 ^ 2)) := by
    rw [readBytes, if_pos (by rw [List.length_append]; omega), List.take_append_of_le_length hle]
  simp only [decodeEvent, Event.blob, encodeEvent, hts, hlen, hread, readU8_cons,
    Option.bind_eq_bind, Option.bind_some, Option.some.injEq, Prod.mk.injEq] at hdecode
  obtain ⟨rfl, -⟩ := hdecode
  by_contra hdollar
  rw [Bool.not_eq_false, Text.startsWithChar, beq_iff_eq] at hdollar
  have hhead := head?_fromUtf8Lossy (by decide) (by decide) hdollar
  have hfirst : (utf8 original).head? = some (UInt8.ofNat '$'.toNat) := by
    rw [List.head?_take] at hhead
    split at hhead
    · cases hhead
    · exact hhead
  rw [Event.Plain, Text.startsWithChar, (head?_utf8 (by decide) original).mp hfirst] at hplain
  cases hplain

namespace Hub

/-- Channels are only added to, by PUBLISHes on topics that the permissions
cover. -/
def Streams (acl : Acl) (h h' : Hub) : Prop :=
  ∀ id s', h'.sessions.byId.lookup id = some s' →
    ∃ s packets, h.sessions.byId.lookup id = some s ∧ s'.tx = s.tx.map (· ++ packets) ∧
      ∀ packet ∈ packets, ∃ p, packet = .publish p ∧
        ∃ pattern ∈ acl.subscribe, topicMatches pattern p.topic = true

theorem Streams.of_sessions {acl : Acl} {h h' : Hub} (hsame : h'.sessions = h.sessions) :
    Streams acl h h' := by
  intro id s' hs'
  rw [hsame] at hs'
  exact ⟨s', [], hs', by simp, List.forall_mem_nil _⟩

/-- What is replayed comes from a row that decodes and whose topic the filter matches. -/
theorem topic_of_replayPacket {filter : TopicFilter} {row : Nat × Bytes} {packet : Packet}
    (hpacket : replayPacket filter row = some packet) :
    ∃ p payload qos, packet = .publish p ∧ decodeEvent row.2 = some (p.topic, payload, qos) ∧
      filter.matchesTopic p.topic = true := by
  obtain ⟨⟨topic, payload, qos⟩, hdecode, hrest⟩ := Option.bind_eq_some_iff.mp hpacket
  dsimp only at hrest
  split at hrest
  next hmatch =>
    cases hrest
    exact ⟨_, payload, qos, rfl, hdecode, hmatch⟩
  next => cases hrest

/-- A replay that the permissions allow. -/
theorem streams_replay {acl : Acl} {h : Hub} (hlog : h.PlainLog) (id : ClientId) (start : Nat)
    {filter : TopicFilter} (hallowed : acl.canSubscribe filter.asStr = true) :
    Streams acl h (h.replay id start filter).2 := by
  obtain ⟨pattern, hpattern, hsubsumes⟩ := List.any_eq_true.mp hallowed
  unfold replay
  cases hdisk : h.disk with
  | none => exact .of_sessions rfl
  | some d =>
      cases hs : h.sessions.byId.lookup id with
      | none => exact .of_sessions rfl
      | some s =>
          dsimp only
          intro id' s' hs'
          rw [setSession, AssocMap.lookup_modify] at hs'
          split at hs'
          next heq =>
            subst heq
            rw [hs] at hs'
            cases hs'
            refine ⟨s, _, hs, by rw [Session.foldl_send], fun packet hpacket => ?_⟩
            obtain ⟨row, hrow, hreplay⟩ := List.mem_filterMap.mp hpacket
            obtain ⟨p, payload, qos, rfl, hdecode, hmatch⟩ := topic_of_replayPacket hreplay
            obtain ⟨e, hplain, hblob⟩ := hlog d hdisk row (List.mem_of_mem_filter hrow)
            rw [hblob] at hdecode
            have htopic := decodeEvent_plain hplain hdecode
            refine ⟨p, rfl, pattern, hpattern, ?_⟩
            exact topicMatches_of_filterSubsumes hsubsumes hmatch (by simp [htopic])
          next => exact ⟨s', [], hs', by simp, List.forall_mem_nil _⟩

end Hub

/-! ## Replay requests -/

/-- A call that forwards nothing to the socket itself, and that streams only what
the permissions cover when it is performed on this hub. -/
def Call.Confined (acl : Acl) (h : Hub) (c : Call) : Prop :=
  (∀ packet, c ≠ .send (.forward packet)) ∧
    ∀ r out, h.perform r c = some out → Hub.Streams acl h out.2

namespace Conn

theorem confined_send {acl : Acl} {h : Hub} {reply : Reply}
    (hreply : ∀ packet, reply ≠ .forward packet) : Call.Confined acl h (.send reply) := by
  refine ⟨fun packet heq => hreply packet (Call.send.inj heq), fun r out hperform => ?_⟩
  cases hperform
  exact .of_sessions rfl

theorem confined_flush {acl : Acl} {h : Hub} : Call.Confined acl h .flush := by
  refine ⟨fun packet heq => (by cases heq), fun r out hperform => ?_⟩
  simp only [Hub.perform] at hperform
  split at hperform <;> cases hperform <;> exact .of_sessions rfl

theorem confined_acknowledged {acl : Acl} {h : Hub} (ack : Nat) :
    Call.Confined acl h (.acknowledged ack) := by
  refine ⟨fun packet heq => (by cases heq), fun r out hperform => ?_⟩
  simp only [Hub.perform] at hperform
  split at hperform
  · cases hperform
    exact .of_sessions rfl
  · cases hperform

/-- A replay that the permissions allow streams only covered topics: the log holds nothing
below `$`, where covering a filter does not mean covering what it matches. -/
theorem confined_replay {acl : Acl} {h : Hub} (hlog : h.PlainLog) (id : ClientId) (start : Nat)
    {filter : TopicFilter} (hallowed : acl.canSubscribe filter.asStr = true) :
    Call.Confined acl h (.replay id start filter) := by
  refine ⟨fun packet heq => (by cases heq), fun r out hperform => ?_⟩
  cases hperform
  exact Hub.streams_replay hlog id start hallowed

/-- A replay request, on a log that publishes have written since startup or in
earlier lives of the store, whatever else goes on before each of its calls:
everything it streams is on a topic that some subscribe pattern matches. If no
pattern subsumes the filter, it is acknowledged and nothing else happens. -/
theorem replay_confined (conn : Conn) (p : Publish) (rest : String) (start : Nat)
    (filter : TopicFilter) (hrequest : Text.strip "$replay/" p.topic = some rest)
    (hparse : parseReplay rest = some (start, filter)) (st : Storage) (log : List (Nat × Event))
    (hlog : st.events.toList = log.map Event.row) (hplain : ∀ r ∈ log, r.2.Plain)
    (retry : RetryConfig) (eventLogMax now : Nat) :
    (conn.onPublish p).Meets (fun c => ∀ steps h,
        Machine.run Hub.logStep (Hub.new (some st) retry eventLogMax now) steps = some h →
          Call.Confined conn.access h c) (fun _ => True) ∧
    ((∀ pattern ∈ conn.access.subscribe, filterSubsumes pattern filter.asStr = false) →
      (conn.onPublish p).Meets (fun c => ∃ pid, c = .send (.publishAck pid .success) ∨
        c = .send (.publishReceived pid .success)) fun _ => True) := by
  unfold onPublish
  cases conn.sessionId with
  | none => exact ⟨trivial, fun _ => trivial⟩
  | some id =>
      simp only [hrequest, onReplay, hparse]
      constructor
      · have hack : (conn.acknowledge p .success).Meets (fun c => ∀ steps h,
            Machine.run Hub.logStep (Hub.new (some st) retry eventLogMax now) steps = some h →
              Call.Confined conn.access h c) fun _ => True :=
          meets_acknowledge (fun _ _ _ _ => confined_send fun _ heq => (by cases heq))
            (fun _ _ _ _ => confined_send fun _ heq => (by cases heq)) fun _ => trivial
        split
        next hallowed =>
          refine (meets_flush (fun _ _ _ => confined_flush)
            fun ack _ _ _ => confined_acknowledged ack).bind fun _ _ => ?_
          exact ⟨fun steps h hrun => confined_replay (Hub.plainLog_run hlog hplain hrun) id start
            hallowed, fun _ => hack⟩
        next => exact hack
      · intro hdenied
        have hnone : conn.access.canSubscribe filter.asStr = false := by
          rw [Acl.canSubscribe, List.any_eq_false]
          simpa using hdenied
        rw [if_neg (by simp [hnone])]
        exact meets_acknowledge (fun pid => ⟨pid, Or.inl rfl⟩) (fun pid => ⟨pid, Or.inr rfl⟩)
          fun _ => trivial

def journalTwo : List LogStep :=
  [.other (.connect "c" true 60 0), .publish ⟨0, "a/b", .atMostOnce, [1]⟩,
    .publish ⟨0, "x", .atMostOnce, [2]⟩, .work, .work, .work]

/-- The first of the two is what the client may replay. -/
theorem replay_confined_sample :
    let conn : Conn := { Conn.start "p" with sessionId := some 1, access := ⟨[], ["a/#"]⟩ }
    let p : Publish := ⟨false, false, .atMostOnce, "$replay/0/a/b", none, [], .default⟩
    ∃ h, Machine.run Hub.logStep (Hub.new (some Storage.empty) ⟨5, 5, 60⟩ 10 0) journalTwo =
        some h ∧
      (h.replay 1 0 ⟨"a/b", by decide⟩).1 = 1 ∧
      (conn.onPublish p).Meets (Call.Confined conn.access h) fun _ => True := by
  intro conn p
  obtain ⟨hconfined, -⟩ := replay_confined conn p "0/a/b" 0 ⟨"a/b", by decide⟩ (by decide)
    (by decide) Storage.empty [] rfl nofun ⟨5, 5, 60⟩ 10 0
  exact ⟨_, rfl, by decide, hconfined.mono (fun c hc => hc journalTwo _ rfl) fun _ _ => trivial⟩

end Conn

end Relay
