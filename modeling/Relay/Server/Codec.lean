import Relay.Foundation.Wire
import Relay.Server.Session

/-! # Persisted blobs

The byte layouts in which the hub hands in-flight queues, dead letters and
logged events to the store, and their decoders. Lengths are written in 16 and 32
bits, so a longer topic or payload is written with a truncated length.
-/

namespace Relay

open Wire

/-! ## In-flight queues -/

def encodePublishEntry (tag : UInt8) (attempts : Nat) (p : Publish) : Bytes :=
  tag :: (beBytes 4 attempts ++ (beBytes 2 (p.packetId.getD 0) ++ ((if p.retain then 1 else 0) ::
    (beBytes 2 (utf8 p.topic).length ++ (utf8 p.topic ++
      (beBytes 4 p.payload.length ++ p.payload))))))

def encodeEntry (e : InflightEntry) : Bytes :=
  match e.state with
  | .qos1 p => encodePublishEntry 1 e.attempts p
  | .qos2AwaitRec p => encodePublishEntry 2 e.attempts p
  | .qos2AwaitComp pid => 3 :: (beBytes 4 e.attempts ++ beBytes 2 pid)

def Session.encodeInflight (s : Session) : Bytes :=
  beBytes 2 s.nextId ++ s.inflight.flatMap encodeEntry

def nonZero (n : Nat) : Option Nat := if n = 0 then none else some n

def decodePublish (qos : QoS) (bytes : Bytes) : Option (Publish × Bytes) := do
  let (rawPid, bytes) ← readNat 2 bytes
  let pid ← nonZero rawPid
  let (retain, bytes) ← readU8 bytes
  let (topicLen, bytes) ← readNat 2 bytes
  let (topic, bytes) ← readBytes topicLen bytes
  let (payloadLen, bytes) ← readNat 4 bytes
  let (payload, bytes) ← readBytes payloadLen bytes
  some (makePublish (fromUtf8Lossy topic) payload qos (some pid) (retain != 0) false, bytes)

def decodeState (tag : UInt8) (bytes : Bytes) : Option (Inflight × Bytes) :=
  if tag = 1 then (decodePublish .atLeastOnce bytes).map fun r => (.qos1 r.1, r.2)
  else if tag = 2 then (decodePublish .exactlyOnce bytes).map fun r => (.qos2AwaitRec r.1, r.2)
  else if tag = 3 then do
    let (rawPid, bytes) ← readNat 2 bytes
    let pid ← nonZero rawPid
    some (.qos2AwaitComp pid, bytes)
  else none

/-- When a reloaded entry is due: counted from the reload. -/
def InflightEntry.rearm (now : Nat) (cfg : RetryConfig) (e : InflightEntry) : InflightEntry :=
  { e with nextDue := now + backoff cfg (max e.attempts 1) }

def decodeEntry (now : Nat) (cfg : RetryConfig) (bytes : Bytes) :
    Option (InflightEntry × Bytes) := do
  let (tag, bytes) ← readU8 bytes
  let (attempts, bytes) ← readNat 4 bytes
  let (state, bytes) ← decodeState tag bytes
  some (InflightEntry.rearm now cfg ⟨state, attempts, 0⟩, bytes)

/-- Every entry takes at least one byte, so the number of bytes is fuel enough. -/
def decodeEntries (now : Nat) (cfg : RetryConfig) : Nat → Bytes → Option (List InflightEntry)
  | _, [] => some []
  | 0, _ :: _ => none
  | fuel + 1, b :: bytes => do
      let (entry, rest) ← decodeEntry now cfg (b :: bytes)
      let entries ← decodeEntries now cfg fuel rest
      some (entry :: entries)

/-- The counter and the queue of a blob, or `none` on malformed input. -/
def decodeInflight (blob : Bytes) (now : Nat) (cfg : RetryConfig) :
    Option (Nat × List InflightEntry) := do
  let (nextId, bytes) ← readNat 2 blob
  let queue ← decodeEntries now cfg bytes.length bytes
  some (nextId, queue)

/-! ## Dead letters and events -/

def encodeDeadLetter (ts : Nat) (clientId topic reason : String) (attempts : Nat) (qos : QoS)
    (payload : Bytes) : Bytes :=
  beBytes 8 ts ++ (beBytes 4 attempts ++
    (beBytes 2 (utf8 reason).length ++ (utf8 reason ++
      (beBytes 2 (utf8 clientId).length ++ (utf8 clientId ++
        (beBytes 2 (utf8 topic).length ++ (utf8 topic ++ (qos.toU8 :: payload))))))))

def encodeEvent (ts : Nat) (topic : String) (qos : QoS) (payload : Bytes) : Bytes :=
  beBytes 8 ts ++ (qos.toU8 :: (beBytes 2 (utf8 topic).length ++ (utf8 topic ++ payload)))

def decodeEvent (blob : Bytes) : Option (String × Bytes × QoS) := do
  let (_, bytes) ← readBytes 8 blob
  let (qos, bytes) ← readU8 bytes
  let (topicLen, bytes) ← readNat 2 bytes
  let (topic, payload) ← readBytes topicLen bytes
  some (fromUtf8Lossy topic, payload, (QoS.fromU8 qos).getD .atMostOnce)

/-! ## Round trips -/

/-- A PUBLISH as `deliver` queues it. -/
structure Publish.Queued (p : Publish) (qos : QoS) : Prop where
  dup : p.dup = false
  qos : p.qos = qos
  properties : p.properties = .default
  packetId : ∃ pid, p.packetId = some pid ∧ 0 < pid ∧ pid < u16Bound

def Publish.Fits (p : Publish) : Prop :=
  (utf8 p.topic).length < u16Bound ∧ p.payload.length < u32Bound

def Inflight.Queued : Inflight → Prop
  | qos1 p => p.Queued .atLeastOnce
  | qos2AwaitRec p => p.Queued .exactlyOnce
  | qos2AwaitComp pid => 0 < pid ∧ pid < u16Bound

def Inflight.Fits : Inflight → Prop
  | qos1 p => p.Fits
  | qos2AwaitRec p => p.Fits
  | qos2AwaitComp _ => True

/-- What every entry of a session's queue satisfies. -/
def InflightEntry.Queued (e : InflightEntry) : Prop := e.state.Queued ∧ e.attempts < u32Bound

/-- A queued PUBLISH is read back, and the reader stands behind it. -/
theorem decodePublish_encode {p : Publish} {qos : QoS} (hqueued : p.Queued qos) (hfits : p.Fits)
    (rest : Bytes) :
    decodePublish qos (beBytes 2 (p.packetId.getD 0) ++ ((if p.retain then 1 else 0) ::
      (beBytes 2 (utf8 p.topic).length ++ (utf8 p.topic ++
        (beBytes 4 p.payload.length ++ (p.payload ++ rest)))))) = some (p, rest) := by
  obtain ⟨pid, hpid, hpos, hlt⟩ := hqueued.packetId
  have hreadPid := readNat_beBytes 2 hlt
  have hreadTopic := readNat_beBytes 2 hfits.1
  have hreadPayload := readNat_beBytes 4 hfits.2
  have hretain : ((if p.retain then (1 : UInt8) else 0) != 0) = p.retain := by
    cases p.retain <;> rfl
  have hshape : makePublish p.topic p.payload qos (some pid) p.retain false = p := by
    cases p with
    | mk dup retain q topic packetId payload properties =>
        obtain ⟨rfl, rfl, rfl, -⟩ := hqueued
        subst hpid
        rfl
  simp only [decodePublish, hpid, Option.getD_some, hreadPid, Option.bind_eq_bind,
    Option.bind_some, nonZero, Nat.pos_iff_ne_zero.mp hpos, if_false, readU8_cons, hreadTopic,
    readBytes_append, hreadPayload, fromUtf8Lossy_utf8, hretain, hshape]

/-- An entry is read back but for its clock, which starts anew. -/
theorem decodeEntry_encodeEntry {e : InflightEntry} (hqueued : e.Queued) (hfits : e.state.Fits)
    (now : Nat) (cfg : RetryConfig) (rest : Bytes) :
    decodeEntry now cfg (encodeEntry e ++ rest) = some (e.rearm now cfg, rest) := by
  obtain ⟨state, attempts, nextDue⟩ := e
  have hattempts := readNat_beBytes 4 hqueued.2
  have hstate := hqueued.1
  cases state with
  | qos1 p =>
      simp [decodeEntry, encodeEntry, encodePublishEntry, hattempts, decodeState,
        decodePublish_encode hstate hfits, InflightEntry.rearm]
  | qos2AwaitRec p =>
      simp [decodeEntry, encodeEntry, encodePublishEntry, hattempts, decodeState,
        decodePublish_encode hstate hfits, InflightEntry.rearm]
  | qos2AwaitComp pid =>
      have hpid := readNat_beBytes 2 hstate.2
      have hpos : pid ≠ 0 := Nat.pos_iff_ne_zero.mp hstate.1
      simp [decodeEntry, encodeEntry, hattempts, decodeState, hpid, nonZero, hpos,
        InflightEntry.rearm]

theorem encodeEntry_ne_nil (e : InflightEntry) : encodeEntry e ≠ [] := by
  unfold encodeEntry encodePublishEntry
  split <;> simp

/-- The fuel the decoder starts with is enough for every entry of the queue. -/
theorem decodeEntries_encode {queue : List InflightEntry} (hqueued : ∀ e ∈ queue, e.Queued)
    (hfits : ∀ e ∈ queue, e.state.Fits) (now : Nat) (cfg : RetryConfig) (fuel : Nat)
    (hfuel : (queue.flatMap encodeEntry).length ≤ fuel) :
    decodeEntries now cfg fuel (queue.flatMap encodeEntry) =
      some (queue.map (InflightEntry.rearm now cfg)) := by
  induction queue generalizing fuel with
  | nil => cases fuel <;> rfl
  | cons e queue ih =>
      -- an entry takes at least one byte, which pays for the recursive call
      obtain ⟨b, bytes, hbytes⟩ := List.exists_cons_of_ne_nil (encodeEntry_ne_nil e)
      rw [List.flatMap_cons, List.length_append, hbytes, List.length_cons] at hfuel
      cases fuel with
      | zero => omega
      | succ fuel =>
          have hentry := decodeEntry_encodeEntry (hqueued e List.mem_cons_self)
            (hfits e List.mem_cons_self) now cfg (queue.flatMap encodeEntry)
          have hrest := ih (fun e he => hqueued e (List.mem_cons_of_mem _ he))
            (fun e he => hfits e (List.mem_cons_of_mem _ he)) fuel (by omega)
          rw [hbytes, List.cons_append] at hentry
          rw [List.flatMap_cons, hbytes, List.cons_append]
          simp [decodeEntries, hentry, hrest]

/-- A session's blob gives back its counter and its queue, with every retry
clock restarted. -/
theorem decodeInflight_encodeInflight {s : Session} (hid : s.nextId < u16Bound)
    (hqueued : ∀ e ∈ s.inflight, e.Queued) (hfits : ∀ e ∈ s.inflight, e.state.Fits) (now : Nat)
    (cfg : RetryConfig) :
    decodeInflight s.encodeInflight now cfg =
      some (s.nextId, s.inflight.map (InflightEntry.rearm now cfg)) := by
  have hreadId := readNat_beBytes 2 hid
  have hentries := decodeEntries_encode hqueued hfits now cfg _ (Nat.le_refl _)
  simp only [decodeInflight, Session.encodeInflight, hreadId, Option.bind_eq_bind,
    Option.bind_some, hentries]

/-- The blob of a session decodes to the counter and the queue it was made from:
the same entries in the same order, with their attempts, due one back-off after the
reload. Topics and payloads may contain any bytes. -/
theorem inflight_round_trip (s : Session) (now : Nat) (cfg : RetryConfig)
    (hid : 1 ≤ s.nextId ∧ s.nextId ≤ 65535)
    (hqueued : ∀ e ∈ s.inflight, e.state.Queued ∧ e.attempts < u32Bound)
    (hfits : ∀ e ∈ s.inflight, e.state.Fits) :
    ∃ queue, decodeInflight s.encodeInflight now cfg = some (s.nextId, queue) ∧
      queue.length = s.inflight.length ∧
      ∀ (i : Nat) (e : InflightEntry), s.inflight[i]? = some e →
        queue[i]? = some ⟨e.state, e.attempts, now + backoff cfg (max e.attempts 1)⟩ := by
  have hlt : s.nextId < u16Bound := Nat.lt_succ_of_le hid.2
  refine ⟨_, decodeInflight_encodeInflight hlt hqueued hfits now cfg, List.length_map _, ?_⟩
  intro i e he
  rw [List.getElem?_map, he, Option.map_some]
  rfl

/-- One entry of each kind, the first with a payload that looks like an entry. -/
theorem inflight_round_trip_mixed :
    let s : Session := { Session.new "c" none 60 0 with
      nextId := 65535
      inflight :=
        [⟨.qos1 (makePublish "t" [3, 0, 0, 0, 1, 0, 9] .atLeastOnce (some 7) true false), 2, 40⟩,
          ⟨.qos2AwaitRec (makePublish "é" [] .exactlyOnce (some 8) false false), 1, 50⟩,
          ⟨.qos2AwaitComp 9, 0, 60⟩] }
    ∃ queue, decodeInflight s.encodeInflight 100 ⟨5, 5, 60⟩ = some (65535, queue) ∧
      queue.length = 3 ∧ queue[2]? = some ⟨.qos2AwaitComp 9, 0, 105⟩ := by
  intro s
  have hqueued : ∀ e ∈ s.inflight, e.state.Queued ∧ e.attempts < u32Bound := by
    intro e he
    simp only [s, List.mem_cons, List.not_mem_nil, or_false] at he
    rcases he with rfl | rfl | rfl
    · exact ⟨⟨rfl, rfl, rfl, 7, rfl, by decide, by decide⟩, by decide⟩
    · exact ⟨⟨rfl, rfl, rfl, 8, rfl, by decide, by decide⟩, by decide⟩
    · exact ⟨⟨by decide, by decide⟩, by decide⟩
  have hfits : ∀ e ∈ s.inflight, e.state.Fits := by
    intro e he
    simp only [s, List.mem_cons, List.not_mem_nil, or_false] at he
    rcases he with rfl | rfl | rfl
    · exact ⟨by decide, by decide⟩
    · exact ⟨by decide, by decide⟩
    · trivial
  obtain ⟨queue, hdecode, hlength, hentries⟩ :=
    inflight_round_trip s 100 ⟨5, 5, 60⟩ (by decide) hqueued hfits
  exact ⟨queue, hdecode, hlength, hentries 2 _ rfl⟩

/-! ## What the decoder yields -/

theorem nonZero_eq_some {n pid : Nat} (h : nonZero n = some pid) : n = pid ∧ 0 < pid := by
  unfold nonZero at h
  split at h
  · cases h
  next hne =>
    cases h
    exact ⟨rfl, Nat.pos_of_ne_zero hne⟩

/-- Whatever the bytes were, what decodes is a PUBLISH that `deliver` could have queued.
-/
theorem queued_decodePublish {qos : QoS} {bytes rest : Bytes} {p : Publish}
    (hdecode : decodePublish qos bytes = some (p, rest)) : p.Queued qos := by
  unfold decodePublish at hdecode
  obtain ⟨⟨rawPid, bytes₁⟩, hread, hdecode⟩ := Option.bind_eq_some_iff.mp hdecode
  obtain ⟨pid, hpid, hdecode⟩ := Option.bind_eq_some_iff.mp hdecode
  obtain ⟨⟨retain, bytes₂⟩, -, hdecode⟩ := Option.bind_eq_some_iff.mp hdecode
  obtain ⟨⟨topicLen, bytes₃⟩, -, hdecode⟩ := Option.bind_eq_some_iff.mp hdecode
  obtain ⟨⟨topic, bytes₄⟩, -, hdecode⟩ := Option.bind_eq_some_iff.mp hdecode
  obtain ⟨⟨payloadLen, bytes₅⟩, -, hdecode⟩ := Option.bind_eq_some_iff.mp hdecode
  obtain ⟨⟨payload, bytes₆⟩, -, hdecode⟩ := Option.bind_eq_some_iff.mp hdecode
  cases hdecode
  obtain ⟨rfl, hpos⟩ := nonZero_eq_some hpid
  exact ⟨rfl, rfl, rfl, rawPid, rfl, hpos, readNat_lt hread⟩

theorem queued_decodeState {tag : UInt8} {bytes rest : Bytes} {state : Inflight}
    (hdecode : decodeState tag bytes = some (state, rest)) : state.Queued := by
  unfold decodeState at hdecode
  split_ifs at hdecode
  · obtain ⟨⟨p, rest'⟩, hp, heq⟩ := Option.map_eq_some_iff.mp hdecode
    cases heq
    exact queued_decodePublish hp
  · obtain ⟨⟨p, rest'⟩, hp, heq⟩ := Option.map_eq_some_iff.mp hdecode
    cases heq
    exact queued_decodePublish hp
  · obtain ⟨⟨rawPid, bytes'⟩, hread, hdecode⟩ := Option.bind_eq_some_iff.mp hdecode
    obtain ⟨pid, hpid, hdecode⟩ := Option.bind_eq_some_iff.mp hdecode
    cases hdecode
    obtain ⟨rfl, hpos⟩ := nonZero_eq_some hpid
    exact ⟨hpos, readNat_lt hread⟩

theorem queued_decodeEntry {now : Nat} {cfg : RetryConfig} {bytes rest : Bytes}
    {e : InflightEntry} (hdecode : decodeEntry now cfg bytes = some (e, rest)) : e.Queued := by
  unfold decodeEntry at hdecode
  obtain ⟨⟨tag, bytes₁⟩, -, hdecode⟩ := Option.bind_eq_some_iff.mp hdecode
  obtain ⟨⟨attempts, bytes₂⟩, hattempts, hdecode⟩ := Option.bind_eq_some_iff.mp hdecode
  obtain ⟨⟨state, bytes₃⟩, hstate, hdecode⟩ := Option.bind_eq_some_iff.mp hdecode
  cases hdecode
  exact ⟨queued_decodeState hstate, readNat_lt hattempts⟩

/-- A blob that decodes gives a queue of proper entries. -/
theorem queued_decodeEntries {now : Nat} {cfg : RetryConfig} {fuel : Nat} {bytes : Bytes}
    {queue : List InflightEntry} (hdecode : decodeEntries now cfg fuel bytes = some queue) :
    ∀ e ∈ queue, e.Queued := by
  induction fuel generalizing bytes queue with
  | zero =>
      cases bytes with
      | nil =>
          cases hdecode
          exact fun _ he => nomatch he
      | cons b bytes => cases hdecode
  | succ fuel ih =>
      cases bytes with
      | nil =>
          cases hdecode
          exact fun _ he => nomatch he
      | cons b bytes =>
          obtain ⟨⟨entry, rest⟩, hentry, hdecode⟩ := Option.bind_eq_some_iff.mp hdecode
          obtain ⟨entries, hentries, hdecode⟩ := Option.bind_eq_some_iff.mp hdecode
          cases hdecode
          exact List.forall_mem_cons.mpr ⟨queued_decodeEntry hentry, ih hentries⟩

/-- Whatever the bytes of a blob are, counter and queue have the shape that can be
written again. -/
theorem queued_decodeInflight {blob : Bytes} {now : Nat} {cfg : RetryConfig} {nextId : Nat}
    {queue : List InflightEntry} (hdecode : decodeInflight blob now cfg = some (nextId, queue)) :
    nextId < u16Bound ∧ ∀ e ∈ queue, e.Queued := by
  unfold decodeInflight at hdecode
  obtain ⟨⟨nextId', bytes⟩, hread, hdecode⟩ := Option.bind_eq_some_iff.mp hdecode
  obtain ⟨queue', hqueue, hdecode⟩ := Option.bind_eq_some_iff.mp hdecode
  cases hdecode
  exact ⟨readNat_lt hread, queued_decodeEntries hqueue⟩

/-- A logged event gives back its topic, payload and QoS. -/
theorem decodeEvent_encodeEvent (ts : Nat) {topic : String}
    (htopic : (utf8 topic).length < u16Bound) (qos : QoS) (payload : Bytes) :
    decodeEvent (encodeEvent ts topic qos payload) = some (topic, payload, qos) := by
  have hlen := readNat_beBytes 2 htopic
  have hts := readBytes_append (beBytes 8 ts) (qos.toU8 ::
    (beBytes 2 (utf8 topic).length ++ (utf8 topic ++ payload)))
  rw [length_beBytes] at hts
  simp [decodeEvent, encodeEvent, hts, hlen]

end Relay
