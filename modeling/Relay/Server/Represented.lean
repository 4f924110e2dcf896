import Relay.Server.EachSession
import Relay.Server.Restored

/-! # What a session's fields hold

The types of the source leave more room than the code uses: a packet-id counter may be
0, a queued PUBLISH may have any QoS and no identifier. In every state that a session
reaches by its own calls, and by being written and read back any number of times, they
hold what the two `expect`s rely on. Attempts are at least 1 as long as the `u32` they
are counted in has not wrapped, and no payload was too long for its length field.
-/

namespace Relay

namespace Session

/-! ## Reaching a session -/

/-- Topics are shorter than 65536 bytes. -/
def TopicsFit (s : Session) : Prop :=
  ∀ e ∈ s.inflight, ∀ p, e.state.undelivered = some p → (Wire.utf8 p.topic).length < u16Bound

/-- Topics and payloads are shorter than their length fields can say. -/
def Fits (s : Session) : Prop := ∀ e ∈ s.inflight, e.state.Fits

/-- A session that was new or read back from its own blob, after any calls. The number
is that of the retry ticks, over all restarts; what a session has to satisfy when its
blob is written is a parameter. -/
inductive Reached (written : Session → Prop) : Nat → Session → Prop where
  | new (clientId : String) (tx : Option (List Packet)) (expirySecs generation : Nat) :
      Reached written 0 (.new clientId tx expirySecs generation)
  | restored {n : Nat} {s : Session} (hs : Reached written n s) (hwritten : written s)
      (clientId : String) (expirySecs now : Nat) (cfg : RetryConfig) {nextId : Nat}
      {queue : List InflightEntry}
      (hdecode : decodeInflight s.encodeInflight now cfg = some (nextId, queue)) :
      Reached written n
        { Session.new clientId none expirySecs 0 with nextId := nextId, inflight := queue }
  | step {n : Nat} {s s' : Session} (hs : Reached written n s) (cfg : RetryConfig)
      (op : SessionOp) (hstep : s.step cfg op = some s') :
      Reached written (n + ticks [op]) s'
  | drained {n : Nat} {s : Session} (hs : Reached written n s) :
      Reached written n s.drainUndelivered.1

/-! ## The two expectations -/

/-- The loop of `on_pubrec` as it is written: the identifier is matched first and then
expected to be there. The outer `none` is the failure, the inner one an unknown
identifier. -/
def expectComp (pid : Nat) :
    List InflightEntry → Option (Option (Nat × List InflightEntry))
  | [] => some none
  | e :: rest =>
      let skip := (expectComp pid rest).map (Option.map fun r => (r.1, e :: r.2))
      match e.state with
      | .qos2AwaitRec p =>
          if p.packetId = some pid then
            p.packetId.map fun nz => some (nz, { e with state := .qos2AwaitComp nz } :: rest)
          else skip
      | _ => skip

/-- `on_pubrec` with its `expect`. -/
def expectPubrec (s : Session) (pid : Nat) : Option Session :=
  (expectComp pid s.inflight).map fun
    | some (nz, inflight) => send { s with inflight := inflight } (pubrel nz)
    | none => if pid = 0 then s else s.send (pubrel pid)

/-- The `expect` never fails: a match has an identifier. -/
theorem expectComp_eq (pid : Nat) (queue : List InflightEntry) :
    expectComp pid queue = some ((awaitComp pid queue).map fun queue' => (pid, queue')) := by
  induction queue with
  | nil => rfl
  | cons e rest ih =>
      have hskip : (expectComp pid rest).map (Option.map fun r => (r.1, e :: r.2)) =
          some (((awaitComp pid rest).map (e :: ·)).map fun queue' => (pid, queue')) := by
        rw [ih, Option.map_some, Option.map_map, Option.map_map]
        rfl
      obtain ⟨state, attempts, nextDue⟩ := e
      cases state with
      | qos1 p => exact hskip
      | qos2AwaitComp pid' => exact hskip
      | qos2AwaitRec p =>
          by_cases hpid : p.packetId = some pid
          · simp [expectComp, awaitComp, hpid]
          · simp only [expectComp, awaitComp, hpid, if_false]
            exact hskip

/-- The identifier that was matched is there. -/
theorem expectPubrec_eq (s : Session) (pid : Nat) :
    s.expectPubrec pid = some (s.onPubrec pid) := by
  rw [expectPubrec, expectComp_eq, onPubrec, Option.map_some]
  cases awaitComp pid s.inflight <;> rfl

/-! ## Counter and entries -/

theorem Coded.drained {s : Session} (hs : s.Coded) : s.drainUndelivered.1.Coded :=
  ⟨hs.pos, hs.lt, fun e he => hs.queued e (List.mem_of_mem_filter he)⟩

/-- One call on a session, whichever it is. -/
theorem Kept.step {P : Session → Prop} (hkept : Kept P) {s s' : Session} (hs : P s)
    {cfg : RetryConfig} {op : SessionOp} (hstep : s.step cfg op = some s') : P s' := by
  cases op with
  | attach => cases hstep; exact hkept.frame hs rfl rfl
  | detach => cases hstep; exact hkept.frame hs rfl rfl
  | deliver topic payload qos retain now => exact hkept.deliver hstep hs
  | retransmit now => cases hstep; exact hkept.retransmit now cfg hs
  | onPuback pid => cases hstep; exact hkept.ack (.puback pid) hs
  | onPubrec pid => cases hstep; exact hkept.ack (.pubrec pid) hs
  | onPubcomp pid => cases hstep; exact hkept.ack (.pubcomp pid) hs
  | tickRetries now => cases hstep; exact hkept.tickRetries now cfg hs

/-- The counter is read back from any blob of a session, whatever follows it. -/
theorem nextId_of_decode {s : Session} (hlt : s.nextId < u16Bound) {now : Nat} {cfg : RetryConfig}
    {nextId : Nat} {queue : List InflightEntry}
    (hdecode : decodeInflight s.encodeInflight now cfg = some (nextId, queue)) :
    nextId = s.nextId := by
  unfold decodeInflight at hdecode
  obtain ⟨⟨id, bytes⟩, hread, hdecode⟩ := Option.bind_eq_some_iff.mp hdecode
  obtain ⟨queue', -, heq⟩ := Option.bind_eq_some_iff.mp hdecode
  cases heq
  rw [encodeInflight, Wire.readNat_beBytes 2 hlt] at hread
  cases hread
  rfl

theorem Reached.coded {written : Session → Prop} {n : Nat} {s : Session}
    (hs : Reached written n s) : s.Coded := by
  induction hs with
  | new clientId tx expirySecs generation => exact kept_coded.new _ _ _ _
  | restored _ _ clientId expirySecs now cfg hdecode ih =>
      obtain ⟨hlt, hqueued⟩ := queued_decodeInflight hdecode
      exact ⟨nextId_of_decode ih.lt hdecode ▸ ih.pos, hlt, hqueued⟩
  | step _ cfg op hstep ih => exact kept_coded.step ih hstep
  | drained _ ih => exact ih.drained

/-! ## Attempts -/

/-- Attempts have been counted up from 1, by one a tick at most. -/
def Attempted (n : Nat) (s : Session) : Prop :=
  ∀ e ∈ s.inflight, 1 ≤ e.attempts ∧ e.attempts ≤ n + 1

theorem Attempted.of_inflight {n : Nat} {s s' : Session} (hs : s.Attempted n)
    (hinflight : ∀ e' ∈ s'.inflight, ∃ e ∈ s.inflight, e'.attempts = e.attempts) :
    s'.Attempted n := by
  intro e' he'
  obtain ⟨e, he, hattempts⟩ := hinflight e' he'
  rw [hattempts]
  exact hs e he

/-- A tick counts one more attempt, as long as the counter has room. -/
theorem Attempted.tickRetries {n : Nat} {s : Session} (hs : s.Attempted n)
    (hroom : n + 1 + 1 < u32Bound) (now : Nat) (cfg : RetryConfig) :
    (s.tickRetries now cfg).1.Attempted (n + 1) := by
  rw [tickRetries_eq]
  intro e' he'
  obtain ⟨e, he, hticked⟩ := List.mem_filterMap.mp he'
  obtain ⟨hpos, hle⟩ := hs e he
  unfold InflightEntry.ticked at hticked
  split_ifs at hticked
  · cases hticked
    exact ⟨hpos, Nat.le_succ_of_le hle⟩
  · cases hticked
    have hnext : (e.retried now cfg).attempts = e.attempts + 1 := Nat.mod_eq_of_lt (by omega)
    rw [hnext]
    omega

theorem Attempted.step {n : Nat} {s s' : Session} (hs : s.Attempted n) {cfg : RetryConfig}
    {op : SessionOp} (hroom : n + ticks [op] + 1 < u32Bound) (hstep : s.step cfg op = some s') :
    s'.Attempted (n + ticks [op]) := by
  have hsame : ∀ e ∈ s.inflight, ∃ e₀ ∈ s.inflight, e.attempts = e₀.attempts :=
    fun e he => ⟨e, he, rfl⟩
  cases op with
  | attach => cases hstep; exact hs.of_inflight hsame
  | detach => cases hstep; exact hs.of_inflight hsame
  | deliver topic payload qos retain now =>
      rw [Session.step, deliver_eq] at hstep
      split at hstep
      · cases hstep
      · cases hstep
        intro e he
        rcases List.mem_append.mp he with hold | hnew
        · exact hs e hold
        · rw [attempts_of_mem_entriesFor hnew]
          omega
  | retransmit now =>
      cases hstep
      refine hs.of_inflight fun e he => ?_
      obtain ⟨e₀, he₀, rfl⟩ := List.mem_map.mp he
      exact ⟨e₀, he₀, rfl⟩
  | onPuback pid =>
      cases hstep
      exact hs.of_inflight fun e he => hsame e (List.mem_of_mem_filter he)
  | onPubrec pid =>
      cases hstep
      unfold Session.onPubrec
      split
      next queue hqueue =>
        refine hs.of_inflight fun e he => ?_
        obtain ⟨e₀, he₀, hattempts, -⟩ := mem_awaitComp hqueue he
        exact ⟨e₀, he₀, hattempts⟩
      next =>
        split
        · exact hs
        · exact hs.of_inflight hsame
  | onPubcomp pid =>
      cases hstep
      exact hs.of_inflight fun e he => hsame e (List.mem_of_mem_filter he)
  | tickRetries now =>
      cases hstep
      exact hs.tickRetries hroom now cfg

theorem Reached.attempted {n : Nat} {s : Session} (hs : Reached Fits n s)
    (hroom : n + 1 < u32Bound) : s.Attempted n := by
  induction hs with
  | new clientId tx expirySecs generation => exact fun e he => (nomatch he)
  | restored hs hfits clientId expirySecs now cfg hdecode ih =>
      have hcoded := hs.coded
      rw [decodeInflight_encodeInflight hcoded.lt hcoded.queued hfits] at hdecode
      cases hdecode
      refine (ih hroom).of_inflight fun e he => ?_
      obtain ⟨e₀, he₀, rfl⟩ := List.mem_map.mp he
      exact ⟨e₀, he₀, rfl⟩
  | step hs cfg op hstep ih => exact (ih (by omega)).step hroom hstep
  | drained _ ih =>
      exact (ih hroom).of_inflight fun e he => ⟨e, List.mem_of_mem_filter he, rfl⟩

def carrying (payload : Bytes) : Session :=
  { Session.new "c" none 60 0 with
    nextId := 2
    inflight :=
      [⟨.qos1 (makePublish "t" payload .atLeastOnce (some 1) false false), 1, 0⟩] }

theorem reached_carrying (written : Session → Prop) (payload : Bytes) :
    Reached written 0 (carrying payload) :=
  (Reached.new "c" none 60 0).step ⟨0, 0, 0⟩ (.deliver "t" payload .atLeastOnce false 0) rfl

/-- In every session reached, with topics that fit when blobs are written, the counter is
an identifier, a queued PUBLISH has the QoS of its state, an identifier and no dup flag,
and neither `expect` fails. With payloads that fit as well, attempts are at least 1
after fewer than 2^32 - 1 ticks. -/
theorem represented_of_reached (n : Nat) (s : Session) :
    (Reached TopicsFit n s →
      (1 ≤ s.nextId ∧ s.nextId ≤ 65535) ∧
      (∀ e ∈ s.inflight, ∀ p, e.state = .qos1 p →
        p.qos = .atLeastOnce ∧ p.packetId.isSome = true ∧ p.dup = false) ∧
      (∀ e ∈ s.inflight, ∀ p, e.state = .qos2AwaitRec p →
        p.qos = .exactlyOnce ∧ p.packetId.isSome = true ∧ p.dup = false) ∧
      s.allocateId.isSome = true ∧ ∀ pid, (s.expectPubrec pid).isSome = true) ∧
    (Reached Fits n s → n < u32Bound - 1 → ∀ e ∈ s.inflight, 1 ≤ e.attempts) := by
  constructor
  · intro hs
    have hcoded := hs.coded
    have hpublish : ∀ {p : Publish} {qos : QoS}, p.Queued qos →
        p.qos = qos ∧ p.packetId.isSome = true ∧ p.dup = false := by
      rintro p qos ⟨hdup, hqos, -, pid, hpid, -⟩
      exact ⟨hqos, by rw [hpid]; rfl, hdup⟩
    refine ⟨⟨hcoded.pos, Nat.le_of_lt_succ hcoded.lt⟩, ?_, ?_, ?_, ?_⟩
    · intro e he p hstate
      have hqueued := (hcoded.queued e he).1
      rw [hstate] at hqueued
      exact hpublish hqueued
    · intro e he p hstate
      have hqueued := (hcoded.queued e he).1
      rw [hstate] at hqueued
      exact hpublish hqueued
    · rw [allocateId, if_neg (Nat.pos_iff_ne_zero.mp hcoded.pos)]
      rfl
    · intro pid
      rw [expectPubrec_eq]
      rfl
  · intro hs hroom e he
    exact (hs.attempted (by omega) e he).1

/-- A message that was delivered, written, read back and retried. -/
theorem represented_of_reached_retried :
    let s : Session := ((carrying [7]).tickRetries 0 ⟨5, 0, 0⟩).1
    (1 ≤ s.nextId ∧ s.nextId ≤ 65535) ∧ s.allocateId.isSome = true ∧
      (∀ e ∈ s.inflight, 1 ≤ e.attempts) ∧ s.inflight.length = 1 := by
  intro s
  have hfits : ∀ written : Session → Prop, written (carrying [7]) → Reached written 1 s := by
    intro written hwritten
    have hdecode : decodeInflight (carrying [7]).encodeInflight 0 ⟨5, 0, 0⟩ =
        some (2, (carrying [7]).inflight) := by decide +kernel
    exact ((reached_carrying written [7]).restored hwritten "c" 60 0 ⟨5, 0, 0⟩ hdecode).step
      ⟨5, 0, 0⟩ (.tickRetries 0) rfl
  have htopics : TopicsFit (carrying [7]) := by
    intro e he p hp
    rw [List.mem_singleton.mp he] at hp
    cases hp
    decide
  have hboth : Fits (carrying [7]) := by
    intro e he
    rw [List.mem_singleton.mp he]
    exact ⟨by decide, by decide⟩
  obtain ⟨hid, -, -, hallocate, -⟩ := (represented_of_reached 1 s).1 (hfits TopicsFit htopics)
  exact ⟨hid, hallocate, (represented_of_reached 1 s).2 (hfits Fits hboth) (by decide),
    by decide +kernel⟩

/-! ## Where the conditions end -/

def retriedSession (n : Nat) : Session :=
  { Session.new "c" none 60 0 with
    nextId := 2
    inflight :=
      [⟨.qos1 (makePublish "$dlq/t" [] .atLeastOnce (some 1) false false), (n + 1) % u32Bound, 0⟩] }

theorem reached_retriedSession (n : Nat) : Reached Fits n (retriedSession n) := by
  induction n with
  | zero =>
      exact (Reached.new "c" none 60 0).step ⟨0, 0, 0⟩ (.deliver "$dlq/t" [] .atLeastOnce false 0)
        (by decide +kernel)
  | succ n ih =>
      refine ih.step ⟨0, 0, 0⟩ (.tickRetries 0) ?_
      have hdlq : isDlqTopic "$dlq/t" = true := by decide +kernel
      rw [Session.step, tickRetries_eq]
      simp [retriedSession, InflightEntry.ticked, InflightEntry.deadNow, InflightEntry.retried,
        Inflight.undelivered, makePublish, hdlq, backoff, Session.new]

/-- The length field of a payload of 2^32 bytes says 0, so that its bytes follow the
entry as if they were further ones. -/
theorem encodePublishEntry_overflow (tag : UInt8) (attempts : Nat) {p : Publish}
    (hlength : p.payload.length = u32Bound) :
    encodePublishEntry tag attempts p =
      encodePublishEntry tag attempts { p with payload := [] } ++ p.payload := by
  have hzero : Wire.beBytes 4 u32Bound = Wire.beBytes 4 0 := by decide +kernel
  simp [encodePublishEntry, hlength, hzero]

def unattempted (n : Nat) : InflightEntry :=
  ⟨.qos1 (makePublish "" (List.replicate n 0) .atLeastOnce (some 1) false false), 0, 0⟩

theorem length_unattempted (n : Nat) : (encodeEntry (unattempted n)).length = n + 14 := by
  have htopic : (Wire.utf8 "").length = 0 := rfl
  simp only [encodeEntry, unattempted, encodePublishEntry, makePublish, List.length_cons,
    List.length_append, Wire.length_beBytes, List.length_replicate, htopic]
  omega

/-- An entry that is hidden in a payload is read as one of the queue. -/
theorem decode_carrying {n : Nat} (hn : n + 14 = u32Bound) :
    ∃ queue, decodeInflight (carrying (encodeEntry (unattempted n))).encodeInflight 0 ⟨0, 0, 0⟩ =
      some (2, queue) ∧ ∃ e ∈ queue, e.state = (unattempted n).state ∧ e.attempts = 0 := by
  let visible : InflightEntry :=
    ⟨.qos1 (makePublish "t" [] .atLeastOnce (some 1) false false), 1, 0⟩
  let read : Session :=
    { Session.new "c" none 60 0 with nextId := 2, inflight := [visible, unattempted n] }
  have hblob : (carrying (encodeEntry (unattempted n))).encodeInflight = read.encodeInflight := by
    have hover := encodePublishEntry_overflow 1 1 (p := makePublish "t"
      (encodeEntry (unattempted n)) .atLeastOnce (some 1) false false)
      ((length_unattempted n).trans hn)
    simp only [encodeInflight, carrying, read, List.flatMap_cons, List.flatMap_nil,
      List.append_nil]
    exact congrArg _ hover
  have hqueued : ∀ e ∈ read.inflight, e.Queued := by
    intro e he
    simp only [read, List.mem_cons, List.not_mem_nil, or_false] at he
    rcases he with rfl | rfl
    · exact ⟨⟨rfl, rfl, rfl, 1, rfl, by decide, by decide⟩, by decide⟩
    · exact ⟨⟨rfl, rfl, rfl, 1, rfl, by decide, by decide⟩, (by decide : 0 < u32Bound)⟩
  have hfits : ∀ e ∈ read.inflight, e.state.Fits := by
    intro e he
    simp only [read, List.mem_cons, List.not_mem_nil, or_false] at he
    rcases he with rfl | rfl
    · exact ⟨by decide, by decide⟩
    · have hpayload : (List.replicate n (0 : UInt8)).length < u32Bound := by
        rw [List.length_replicate]
        omega
      exact ⟨(by decide : (Wire.utf8 "").length < u16Bound), hpayload⟩
  refine ⟨_, (congrArg (decodeInflight · 0 ⟨0, 0, 0⟩) hblob).trans
    (decodeInflight_encodeInflight (s := read) (by decide : 2 < u16Bound) hqueued hfits 0 ⟨0, 0, 0⟩),
    (unattempted n).rearm 0 ⟨0, 0, 0⟩, ?_, rfl, rfl⟩
  exact List.mem_map.mpr ⟨unattempted n, by simp [read], rfl⟩

/-- After 2^32 - 1 ticks the attempts are 0 again; and a payload of 2^32 bytes can be read
back as an entry without attempts. -/
theorem attempts_wrap :
    (∃ s, Reached Fits (u32Bound - 1) s ∧ ∃ e ∈ s.inflight, ∃ p, e.state = .qos1 p ∧
      e.attempts = 0) ∧
    ∃ s, Reached TopicsFit 0 s ∧ ∃ e ∈ s.inflight, ∃ p, e.state = .qos1 p ∧ e.attempts = 0 := by
  constructor
  · refine ⟨_, reached_retriedSession (u32Bound - 1), _, List.mem_singleton_self _, _, rfl, ?_⟩
    decide
  · obtain ⟨n, hn⟩ : ∃ n, n + 14 = u32Bound := ⟨u32Bound - 14, by decide⟩
    obtain ⟨queue, hdecode, e, he, hstate, hattempts⟩ := decode_carrying hn
    have hwritten : TopicsFit (carrying (encodeEntry (unattempted n))) := by
      intro e he p hp
      rw [List.mem_singleton.mp he] at hp
      cases hp
      exact (by decide : (Wire.utf8 "t").length < u16Bound)
    exact ⟨_, (reached_carrying TopicsFit _).restored hwritten "c" 60 0 ⟨0, 0, 0⟩ hdecode, e, he,
      _, hstate, hattempts⟩

end Session

end Relay
