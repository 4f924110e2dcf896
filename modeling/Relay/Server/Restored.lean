import Relay.Server.Codec
import Relay.Server.PacketIds

/-! # Sessions restored from arbitrary bytes

The decoder accepts every packet-id counter and every attempt counter that the
bytes spell, and what it returns is used much later: a delivery hands out the
counter, a retry tick adds one to the attempts. Which blobs are safe to restore
therefore depends on what is done to the session afterwards, above all on how many
ticks it sees.
-/

namespace Relay

/-! ## The decoder ends -/

section Decoder

open Wire

theorem length_of_decodePublish {qos : QoS} {bytes rest : Bytes} {p : Publish}
    (hdecode : decodePublish qos bytes = some (p, rest)) : rest.length ≤ bytes.length := by
  obtain ⟨⟨rawPid, bytes₁⟩, hpid, hdecode⟩ := Option.bind_eq_some_iff.mp hdecode
  obtain ⟨pid, -, hdecode⟩ := Option.bind_eq_some_iff.mp hdecode
  obtain ⟨⟨retain, bytes₂⟩, hretain, hdecode⟩ := Option.bind_eq_some_iff.mp hdecode
  obtain ⟨⟨topicLen, bytes₃⟩, htopicLen, hdecode⟩ := Option.bind_eq_some_iff.mp hdecode
  obtain ⟨⟨topic, bytes₄⟩, htopic, hdecode⟩ := Option.bind_eq_some_iff.mp hdecode
  obtain ⟨⟨payloadLen, bytes₅⟩, hpayloadLen, hdecode⟩ := Option.bind_eq_some_iff.mp hdecode
  obtain ⟨⟨payload, bytes₆⟩, hpayload, hdecode⟩ := Option.bind_eq_some_iff.mp hdecode
  cases hdecode
  calc rest.length
      ≤ bytes₅.length := length_of_readBytes hpayload
    _ ≤ bytes₄.length := length_of_readNat hpayloadLen
    _ ≤ bytes₃.length := length_of_readBytes htopic
    _ ≤ bytes₂.length := length_of_readNat htopicLen
    _ ≤ bytes₁.length := (length_of_readU8 hretain).le
    _ ≤ bytes.length := length_of_readNat hpid

theorem length_of_decodeState {tag : UInt8} {bytes rest : Bytes} {state : Inflight}
    (hdecode : decodeState tag bytes = some (state, rest)) : rest.length ≤ bytes.length := by
  unfold decodeState at hdecode
  split_ifs at hdecode
  · obtain ⟨⟨p, rest'⟩, hp, heq⟩ := Option.map_eq_some_iff.mp hdecode
    cases heq
    exact length_of_decodePublish hp
  · obtain ⟨⟨p, rest'⟩, hp, heq⟩ := Option.map_eq_some_iff.mp hdecode
    cases heq
    exact length_of_decodePublish hp
  · obtain ⟨⟨rawPid, bytes'⟩, hread, hdecode⟩ := Option.bind_eq_some_iff.mp hdecode
    obtain ⟨pid, -, hdecode⟩ := Option.bind_eq_some_iff.mp hdecode
    cases hdecode
    exact length_of_readNat hread

/-- An entry takes at least its tag off the bytes. -/
theorem length_of_decodeEntry {now : Nat} {cfg : RetryConfig} {bytes rest : Bytes}
    {e : InflightEntry} (hdecode : decodeEntry now cfg bytes = some (e, rest)) :
    rest.length < bytes.length := by
  obtain ⟨⟨tag, bytes₁⟩, htag, hdecode⟩ := Option.bind_eq_some_iff.mp hdecode
  obtain ⟨⟨attempts, bytes₂⟩, hattempts, hdecode⟩ := Option.bind_eq_some_iff.mp hdecode
  obtain ⟨⟨state, bytes₃⟩, hstate, hdecode⟩ := Option.bind_eq_some_iff.mp hdecode
  cases hdecode
  calc rest.length
      ≤ bytes₂.length := length_of_decodeState hstate
    _ ≤ bytes₁.length := length_of_readNat hattempts
    _ < bytes.length := length_of_readU8 htag

/-- The loop of the decoder is over after at most as many rounds as there are bytes. -/
theorem decodeEntries_fuel {now : Nat} {cfg : RetryConfig} {fuel fuel' : Nat} {bytes : Bytes}
    (hfuel : bytes.length ≤ fuel) (hfuel' : bytes.length ≤ fuel') :
    decodeEntries now cfg fuel bytes = decodeEntries now cfg fuel' bytes := by
  induction fuel generalizing fuel' bytes with
  | zero =>
      rw [List.eq_nil_of_length_eq_zero (Nat.le_zero.mp hfuel)]
      cases fuel' <;> rfl
  | succ fuel ih =>
      cases bytes with
      | nil => cases fuel' <;> rfl
      | cons b bytes =>
          cases fuel' with
          | zero => cases hfuel'
          | succ fuel' =>
              unfold decodeEntries
              apply Option.bind_congr
              rintro ⟨entry, rest⟩ hentry
              have hrest := length_of_decodeEntry hentry
              rw [List.length_cons] at hfuel hfuel' hrest
              have hnext : decodeEntries now cfg fuel rest = decodeEntries now cfg fuel' rest :=
                ih (by omega) (by omega)
              dsimp only
              rw [hnext]

end Decoder

/-! ## Calls that may panic -/

/-- A tick adds one to a counter that is at its limit. -/
def Session.Overflows (cfg : RetryConfig) (s : Session) : SessionOp → Prop
  | .tickRetries now => ∃ e ∈ s.inflight, e.nextDue ≤ now ∧ e.deadNow cfg = none ∧
      u32Bound ≤ e.attempts + 1
  | _ => False

instance (cfg : RetryConfig) (s : Session) (op : SessionOp) : Decidable (s.Overflows cfg op) :=
  match op with
  | .tickRetries _ => inferInstanceAs (Decidable (∃ e ∈ _, _))
  | .attach | .detach | .deliver .. | .retransmit .. | .onPuback .. | .onPubrec ..
  | .onPubcomp .. => isFalse id

/-- A call with its arithmetic checked: `none` is a panic, in the counter that is
handed out or in the sum. -/
def Session.checkedStep (cfg : RetryConfig) (s : Session) (op : SessionOp) : Option Session :=
  if s.Overflows cfg op then none else s.step cfg op

def SessionOp.isTick : SessionOp → Bool
  | .tickRetries _ => true
  | _ => false

def ticks (ops : List SessionOp) : Nat := ops.countP SessionOp.isTick

/-- No sequence of calls with at most so many ticks panics. -/
def Session.Safe (cfg : RetryConfig) (s : Session) (n : Nat) : Prop :=
  ∀ ops, ticks ops ≤ n → (Machine.run (checkedStep cfg) s ops).isSome = true

/-- The message may be retried without end: only a QoS 1 PUBLISH outside the
dead-letter namespace is given up whatever its client does. -/
def InflightEntry.lasting (e : InflightEntry) : Bool :=
  match e.state with
  | .qos1 p => isDlqTopic p.topic
  | .qos2AwaitRec _ => true
  | .qos2AwaitComp _ => true

/-! ## Enough room for the ticks to come -/

/-- The attempts have room for so many more ticks. A message that is given up at
some point has room for any number: the limit on the attempts is a `u32` too. -/
def InflightEntry.Roomy (n : Nat) (e : InflightEntry) : Prop :=
  if e.lasting then e.attempts + n < u32Bound else e.attempts < u32Bound

theorem InflightEntry.Roomy.of_succ {n : Nat} {e : InflightEntry} (hroom : e.Roomy (n + 1)) :
    e.Roomy n := by
  unfold InflightEntry.Roomy at hroom ⊢
  split
  next hlasting =>
    rw [if_pos hlasting] at hroom
    omega
  next hlasting => rwa [if_neg hlasting] at hroom

namespace Session

structure Roomy (n : Nat) (s : Session) : Prop where
  nextId : s.nextId ≠ 0
  fresh : n + 1 < u32Bound
  inflight : ∀ e ∈ s.inflight, e.Roomy n

theorem Roomy.of_inflight {n : Nat} {s s' : Session} (hs : s.Roomy n) (hid : s'.nextId = s.nextId)
    (hinflight : ∀ e' ∈ s'.inflight, ∃ e ∈ s.inflight,
      e'.attempts = e.attempts ∧ (e'.lasting = true → e.lasting = true)) : s'.Roomy n := by
  refine ⟨hid ▸ hs.nextId, hs.fresh, fun e' he' => ?_⟩
  obtain ⟨e, he, hattempts, hlasting⟩ := hinflight e' he'
  have hroom := hs.inflight e he
  unfold InflightEntry.Roomy at hroom ⊢
  rw [hattempts]
  split
  next hlast => rwa [if_pos (hlasting hlast)] at hroom
  next =>
    split at hroom
    · exact (Nat.le_add_right _ n).trans_lt hroom
    · exact hroom

/-- A fresh message has made one attempt. -/
theorem attempts_of_mem_entriesFor {s : Session} {topic : String} {payload : Bytes} {qos : QoS}
    {retain : Bool} {due : Nat} {e : InflightEntry}
    (he : e ∈ s.entriesFor topic payload qos retain due) : e.attempts = 1 := by
  cases qos with
  | atMostOnce => cases he
  | atLeastOnce => rw [List.mem_singleton.mp he]
  | exactlyOnce => rw [List.mem_singleton.mp he]

theorem Roomy.deliver {n : Nat} {s : Session} (hs : s.Roomy n) (topic : String) (payload : Bytes)
    (qos : QoS) (retain : Bool) (now : Nat) (cfg : RetryConfig) :
    ∃ s', s.deliver topic payload qos retain now cfg = some s' ∧ s'.Roomy n := by
  refine ⟨s.received topic payload qos retain now cfg, ?_, ?_, hs.fresh, ?_⟩
  · rw [deliver_eq, if_neg fun h => hs.nextId h.2]
  · unfold received
    dsimp only
    split
    · exact hs.nextId
    · exact Nat.pos_iff_ne_zero.mp (bumpId_pos s.nextId)
  · intro e he
    rcases List.mem_append.mp he with hold | hnew
    · exact hs.inflight e hold
    · have hfresh := hs.fresh
      unfold InflightEntry.Roomy
      rw [attempts_of_mem_entriesFor hnew]
      split <;> omega

theorem mem_awaitComp {pid : Nat} {queue queue' : List InflightEntry}
    (hawait : awaitComp pid queue = some queue') {e' : InflightEntry} (he' : e' ∈ queue') :
    ∃ e ∈ queue, e'.attempts = e.attempts ∧ (e'.lasting = true → e.lasting = true) := by
  induction queue generalizing queue' with
  | nil => cases hawait
  | cons e rest ih =>
      have hskip : (awaitComp pid rest).map (e :: ·) = some queue' →
          ∃ e₀ ∈ e :: rest, e'.attempts = e₀.attempts ∧ (e'.lasting = true → e₀.lasting = true) := by
        intro hmap
        obtain ⟨tail, htail, rfl⟩ := Option.map_eq_some_iff.mp hmap
        rcases List.mem_cons.mp he' with rfl | hin
        · exact ⟨e', List.mem_cons_self, rfl, id⟩
        · obtain ⟨e₀, he₀, hsame⟩ := ih htail hin
          exact ⟨e₀, List.mem_cons_of_mem e he₀, hsame⟩
      unfold awaitComp at hawait
      split at hawait
      next p hstate =>
        split at hawait
        next =>
          cases hawait
          rcases List.mem_cons.mp he' with rfl | hin
          · exact ⟨e, List.mem_cons_self, rfl, fun _ => by rw [InflightEntry.lasting, hstate]⟩
          · exact ⟨e', List.mem_cons_of_mem e hin, rfl, id⟩
        next => exact hskip hawait
      next => exact hskip hawait

theorem Roomy.onPubrec {n : Nat} {s : Session} (hs : s.Roomy n) (pid : Nat) :
    (s.onPubrec pid).Roomy n := by
  have hsame : ∀ e ∈ s.inflight, ∃ e₀ ∈ s.inflight,
      e.attempts = e₀.attempts ∧ (e.lasting = true → e₀.lasting = true) :=
    fun e he => ⟨e, he, rfl, id⟩
  unfold Session.onPubrec
  split
  next queue hqueue => exact hs.of_inflight rfl fun e he => mem_awaitComp hqueue he
  next =>
    split
    · exact hs
    · exact hs.of_inflight rfl hsame

/-- An entry that is retried has room for it. -/
theorem Roomy.attempts_lt {n : Nat} {s : Session} (hs : s.Roomy (n + 1)) {cfg : RetryConfig}
    (hcfg : cfg.maxAttempts < u32Bound) {e : InflightEntry} (he : e ∈ s.inflight)
    (halive : e.deadNow cfg = none) :
    e.attempts + 1 < u32Bound ∧ (e.lasting = true → e.attempts + 1 + n < u32Bound) := by
  have hroom := hs.inflight e he
  unfold InflightEntry.Roomy at hroom
  cases hlasting : e.lasting with
  | true =>
      rw [if_pos hlasting] at hroom
      exact ⟨by omega, fun _ => by omega⟩
  | false =>
      -- it would be given up at the limit
      refine ⟨?_, nofun⟩
      unfold InflightEntry.lasting at hlasting
      unfold InflightEntry.deadNow at halive
      split at hlasting
      next p hstate =>
        simp only [hstate, Inflight.undelivered, Option.bind_some, hlasting, Bool.false_eq_true,
          not_false_eq_true, and_true, ite_eq_right_iff, reduceCtorEq, imp_false, not_le] at halive
        omega
      next => cases hlasting
      next => cases hlasting

/-- A tick uses up room for one. -/
theorem Roomy.tickRetries {n : Nat} {s : Session} (hs : s.Roomy (n + 1)) {cfg : RetryConfig}
    (hcfg : cfg.maxAttempts < u32Bound) (now : Nat) : (s.tickRetries now cfg).1.Roomy n := by
  rw [tickRetries_eq]
  refine ⟨hs.nextId, ?_, fun e' he' => ?_⟩
  · have hfresh := hs.fresh
    omega
  · obtain ⟨e, he, hticked⟩ := List.mem_filterMap.mp he'
    unfold InflightEntry.ticked at hticked
    split at hticked
    · cases hticked
      exact (hs.inflight e' he).of_succ
    next =>
      split at hticked
      · cases hticked
      next halive =>
        cases hticked
        obtain ⟨hlt, hlasting⟩ := hs.attempts_lt hcfg he (Option.not_isSome_iff_eq_none.mp halive)
        have hwrap : (e.retried now cfg).attempts = e.attempts + 1 := Nat.mod_eq_of_lt hlt
        unfold InflightEntry.Roomy
        rw [hwrap]
        split
        next hlast => exact hlasting hlast
        next => exact hlt

/-- With room for the ticks among them, no calls panic. -/
theorem Roomy.safe {n : Nat} {s : Session} (hs : s.Roomy n) {cfg : RetryConfig}
    (hcfg : cfg.maxAttempts < u32Bound) : s.Safe cfg n := by
  intro ops hticks
  induction ops generalizing s n with
  | nil => rfl
  | cons op ops ih =>
      have hgo : ∀ s', s.step cfg op = some s' → ¬ s.Overflows cfg op →
          (Machine.run (checkedStep cfg) s' ops).isSome = true →
          (Machine.run (checkedStep cfg) s (op :: ops)).isSome = true := by
        intro s' hstep hsafe hrest
        rw [Machine.run, checkedStep, if_neg hsafe, hstep]
        exact hrest
      cases op with
      | attach => exact hgo _ rfl id (ih (hs.of_inflight rfl fun e he => ⟨e, he, rfl, id⟩) hticks)
      | detach => exact hgo _ rfl id (ih (hs.of_inflight rfl fun e he => ⟨e, he, rfl, id⟩) hticks)
      | deliver topic payload qos retain now =>
          obtain ⟨s', hdeliver, hs'⟩ := hs.deliver topic payload qos retain now cfg
          exact hgo s' hdeliver id (ih hs' hticks)
      | retransmit now =>
          refine hgo _ rfl id (ih (hs.of_inflight rfl fun e' he' => ?_) hticks)
          obtain ⟨e, he, rfl⟩ := List.mem_map.mp he'
          exact ⟨e, he, rfl, id⟩
      | onPuback pid =>
          refine hgo _ rfl id (ih (hs.of_inflight rfl fun e he => ?_) hticks)
          exact ⟨e, List.mem_of_mem_filter he, rfl, id⟩
      | onPubrec pid => exact hgo _ rfl id (ih (hs.onPubrec pid) hticks)
      | onPubcomp pid =>
          refine hgo _ rfl id (ih (hs.of_inflight rfl fun e he => ?_) hticks)
          exact ⟨e, List.mem_of_mem_filter he, rfl, id⟩
      | tickRetries now =>
          rw [ticks, List.countP_cons_of_pos rfl] at hticks
          cases n with
          | zero => cases hticks
          | succ n =>
              refine hgo _ rfl ?_ (ih (hs.tickRetries hcfg now) (Nat.le_of_succ_le_succ hticks))
              rintro ⟨e, he, -, halive, hover⟩
              exact absurd (hs.attempts_lt hcfg he halive).1 (Nat.not_lt.mpr hover)

/-! ## Room is needed -/

section Needed

variable {cfg : RetryConfig} {n : Nat} {s : Session}

/-- A call that is made leaves a safe session behind. -/
theorem Safe.cons (hsafe : s.Safe cfg n) (op : SessionOp) {m : Nat} (hop : ticks [op] + m ≤ n) :
    ∃ s', s.checkedStep cfg op = some s' ∧ s'.Safe cfg m := by
  have hticks : ∀ ops, ticks (op :: ops) = ticks [op] + ticks ops := fun ops => by
    rw [ticks, ← List.singleton_append, List.countP_append, ticks, ticks]
  have hfirst := hsafe [op] (by omega)
  obtain ⟨s', hs'⟩ := Option.isSome_iff_exists.mp hfirst
  obtain ⟨s₁, hstep, hrun⟩ := Machine.run_cons_eq_some.mp hs'
  refine ⟨s₁, hstep, fun ops hops => ?_⟩
  have hall := hsafe (op :: ops) (by rw [hticks]; omega)
  rwa [Machine.run, hstep] at hall

theorem checkedStep_deliver (topic : String) (payload : Bytes) (qos : QoS) (retain : Bool)
    (now : Nat) :
    s.checkedStep cfg (.deliver topic payload qos retain now) =
      s.deliver topic payload qos retain now cfg := by
  unfold checkedStep
  exact if_neg id

/-- A delivery would panic otherwise. -/
theorem Safe.nextId_ne_zero (hsafe : s.Safe cfg n) : s.nextId ≠ 0 := by
  intro hzero
  obtain ⟨s', hs', -⟩ := hsafe.cons (.deliver "" [] .atLeastOnce false 0) (Nat.zero_add n).le
  rw [checkedStep_deliver, deliver_eq, if_pos ⟨by decide, hzero⟩] at hs'
  cases hs'

/-- An entry that is never given up is retried at every tick that comes late enough. -/
theorem Safe.room (hsafe : s.Safe cfg n) {e : InflightEntry} (he : e ∈ s.inflight)
    (halive : ∀ attempts nextDue, InflightEntry.deadNow ⟨e.state, attempts, nextDue⟩ cfg = none)
    (hlt : e.attempts < u32Bound) : e.attempts + n < u32Bound := by
  induction n generalizing s e with
  | zero => exact hlt
  | succ n ih =>
      obtain ⟨s', hs', hsafe'⟩ := hsafe.cons (.tickRetries e.nextDue) (Nat.add_comm 1 n).le
      unfold checkedStep at hs'
      split at hs'
      · cases hs'
      next hover =>
        cases hs'
        have hnext : e.attempts + 1 < u32Bound := by
          by_contra hlimit
          exact hover ⟨e, he, Nat.le_refl _, halive e.attempts e.nextDue, Nat.not_lt.mp hlimit⟩
        have hwrap : (e.retried e.nextDue cfg).attempts = e.attempts + 1 := Nat.mod_eq_of_lt hnext
        have hticked : e.ticked e.nextDue cfg = some (e.retried e.nextDue cfg) := by
          rw [InflightEntry.ticked, if_neg (Nat.lt_irrefl _), halive e.attempts e.nextDue]
          rfl
        have hmem : e.retried e.nextDue cfg ∈ (s.tickRetries e.nextDue cfg).1.inflight := by
          rw [tickRetries_eq]
          exact List.mem_filterMap.mpr ⟨e, he, hticked⟩
        have hrest := ih hsafe' hmem halive (hwrap ▸ hnext)
        rw [hwrap] at hrest
        omega

theorem Safe.fresh (hsafe : s.Safe cfg n) : n + 1 < u32Bound := by
  -- a message in the dead-letter namespace is retried without end
  obtain ⟨s', hs', hsafe'⟩ := hsafe.cons (.deliver "$dlq/" [] .atLeastOnce false 0)
    (Nat.zero_add n).le
  rw [checkedStep_deliver, deliver_eq, if_neg fun h => hsafe.nextId_ne_zero h.2] at hs'
  cases hs'
  have hmem : ⟨.qos1 (s.publishFor "$dlq/" [] .atLeastOnce false), 1, 0 + backoff cfg 1⟩ ∈
      (s.received "$dlq/" [] .atLeastOnce false 0 cfg).inflight :=
    List.mem_append_right _ (List.mem_singleton_self _)
  have hroom := hsafe'.room hmem (fun attempts nextDue => by
    simp [InflightEntry.deadNow, Inflight.undelivered, publishFor, makePublish,
      show isDlqTopic "$dlq/" = true from by decide]) (show 1 < u32Bound by decide)
  exact (Nat.add_comm n 1).trans_lt hroom

def pubrecQueue (pid : Nat) (queue : List InflightEntry) : List InflightEntry :=
  (awaitComp pid queue).getD queue

theorem inflight_onPubrec (s : Session) (pid : Nat) :
    (s.onPubrec pid).inflight = pubrecQueue pid s.inflight := by
  unfold Session.onPubrec pubrecQueue
  split
  next hqueue => rw [hqueue, Option.getD_some]; rfl
  next hqueue =>
    rw [hqueue, Option.getD_none]
    split <;> rfl

theorem pubrecQueue_match {pid : Nat} {e : InflightEntry} {p : Publish}
    (hstate : e.state = .qos2AwaitRec p) (hpid : p.packetId = some pid)
    (rest : List InflightEntry) :
    pubrecQueue pid (e :: rest) = { e with state := .qos2AwaitComp pid } :: rest := by
  simp [pubrecQueue, awaitComp, hstate, hpid]

theorem pubrecQueue_skip {pid : Nat} {e : InflightEntry}
    (hskip : ∀ p, e.state = .qos2AwaitRec p → p.packetId ≠ some pid) (rest : List InflightEntry) :
    pubrecQueue pid (e :: rest) = e :: pubrecQueue pid rest := by
  have hcons : awaitComp pid (e :: rest) = (awaitComp pid rest).map (e :: ·) := by
    rw [awaitComp]
    split
    next p hstate => rw [if_neg (hskip p hstate)]
    next => rfl
  unfold pubrecQueue
  rw [hcons]
  cases awaitComp pid rest <;> rfl

/-- Every message that awaits a PUBREC is moved on by enough PUBRECs, also behind
others with its identifier. -/
theorem exists_pubrecs {pid : Nat} {queue : List InflightEntry} {e : InflightEntry} {p : Publish}
    (he : e ∈ queue) (hstate : e.state = .qos2AwaitRec p) (hpid : p.packetId = some pid) :
    ∃ k, { e with state := .qos2AwaitComp pid } ∈ (pubrecQueue pid)^[k] queue := by
  have hpast : ∀ (x : InflightEntry) (rest : List InflightEntry) (k : Nat),
      (∀ q, x.state = .qos2AwaitRec q → q.packetId ≠ some pid) →
      (pubrecQueue pid)^[k] (x :: rest) = x :: (pubrecQueue pid)^[k] rest := by
    intro x rest k hskip
    induction k generalizing rest with
    | zero => rfl
    | succ k ih =>
        rw [Function.iterate_succ_apply, pubrecQueue_skip hskip, ih, Function.iterate_succ_apply]
  induction queue with
  | nil => cases he
  | cons first rest ih =>
      by_cases hmatch : ∃ q, first.state = .qos2AwaitRec q ∧ q.packetId = some pid
      · obtain ⟨q, hfirst, hq⟩ := hmatch
        rcases List.mem_cons.mp he with rfl | hin
        · refine ⟨1, ?_⟩
          rw [Function.iterate_one, pubrecQueue_match hfirst hq]
          exact List.mem_cons_self
        · obtain ⟨k, hk⟩ := ih hin
          refine ⟨k + 1, ?_⟩
          rw [Function.iterate_succ_apply, pubrecQueue_match hfirst hq,
            hpast _ _ _ fun r hr => Inflight.noConfusion hr]
          exact List.mem_cons_of_mem _ hk
      · have hskip : ∀ q, first.state = .qos2AwaitRec q → q.packetId ≠ some pid :=
          fun q hfirst hq => hmatch ⟨q, hfirst, hq⟩
        rcases List.mem_cons.mp he with rfl | hin
        · exact absurd hpid (hskip p hstate)
        · obtain ⟨k, hk⟩ := ih hin
          refine ⟨k, ?_⟩
          rw [hpast _ _ _ hskip]
          exact List.mem_cons_of_mem _ hk

theorem Safe.pubrecs (hsafe : s.Safe cfg n) (pid k : Nat) :
    ∃ s' : Session, s'.inflight = (pubrecQueue pid)^[k] s.inflight ∧ s'.Safe cfg n := by
  induction k with
  | zero => exact ⟨s, rfl, hsafe⟩
  | succ k ih =>
      obtain ⟨s₁, hqueue, hsafe₁⟩ := ih
      obtain ⟨s₂, hstep, hsafe₂⟩ := hsafe₁.cons (.onPubrec pid) (Nat.zero_add n).le
      cases hstep
      refine ⟨_, ?_, hsafe₂⟩
      rw [inflight_onPubrec, hqueue, Function.iterate_succ_apply']

/-- A session whose queue has the shape of a decoded one is safe exactly if it has
room for the ticks. -/
theorem safe_iff_roomy (hcfg : cfg.maxAttempts < u32Bound) (hqueued : ∀ e ∈ s.inflight, e.Queued) :
    s.Safe cfg n ↔ s.Roomy n := by
  refine ⟨fun hsafe => ⟨hsafe.nextId_ne_zero, hsafe.fresh, fun e he => ?_⟩, fun hs => hs.safe hcfg⟩
  obtain ⟨hshape, hlt⟩ := hqueued e he
  unfold InflightEntry.Roomy
  split
  next hlasting =>
    obtain ⟨state, attempts, nextDue⟩ := e
    cases state with
    | qos1 p =>
        have hdlq : isDlqTopic p.topic = true := hlasting
        exact hsafe.room he (fun _ _ => by
          simp [InflightEntry.deadNow, Inflight.undelivered, hdlq]) hlt
    | qos2AwaitRec p =>
        -- past its PUBREC the message is never given up
        obtain ⟨pid, hpid, -⟩ := Publish.Queued.packetId hshape
        obtain ⟨k, hk⟩ := exists_pubrecs he rfl hpid
        obtain ⟨s', hqueue, hsafe'⟩ := hsafe.pubrecs pid k
        rw [← hqueue] at hk
        have hroom : attempts + n < u32Bound := hsafe'.room hk (fun _ _ => rfl) hlt
        exact hroom
    | qos2AwaitComp pid => exact hsafe.room he (fun _ _ => rfl) hlt
  next => exact hlt

end Needed

end Session

/-! ## Restoring a blob -/

/-- The decoder ends on every byte string. What it returns has packet identifiers
throughout, and the session restored from it survives every sequence of calls with
at most `n` ticks exactly if its counter is not 0 and the attempts of every message
that may be retried without end leave room for `n` more. -/
theorem restored_safe_iff (blob : Bytes) (now : Nat) (cfg : RetryConfig)
    (hcfg : cfg.maxAttempts < u32Bound) (s : Session) (n : Nat) :
    (∀ nextId bytes, Wire.readNat 2 blob = some (nextId, bytes) → ∀ fuel, bytes.length ≤ fuel →
      decodeEntries now cfg fuel bytes = decodeEntries now cfg bytes.length bytes) ∧
    ∀ nextId queue, decodeInflight blob now cfg = some (nextId, queue) →
      (∀ e ∈ queue, ∃ pid, e.state.packetId = some pid ∧ 0 < pid) ∧
      (Session.Safe cfg { s with nextId := nextId, inflight := queue } n ↔
        nextId ≠ 0 ∧ n + 1 < u32Bound ∧
          ∀ e ∈ queue, e.lasting = true → e.attempts + n < u32Bound) := by
  refine ⟨fun nextId bytes _ fuel hfuel => decodeEntries_fuel hfuel (Nat.le_refl _), ?_⟩
  intro nextId queue hdecode
  obtain ⟨-, hqueued⟩ := queued_decodeInflight hdecode
  refine ⟨fun e he => ?_, ?_⟩
  · have hshape := (hqueued e he).1
    cases hstate : e.state with
    | qos1 p =>
        rw [hstate] at hshape
        obtain ⟨pid, hpid, hpos, -⟩ := Publish.Queued.packetId hshape
        exact ⟨pid, hpid, hpos⟩
    | qos2AwaitRec p =>
        rw [hstate] at hshape
        obtain ⟨pid, hpid, hpos, -⟩ := Publish.Queued.packetId hshape
        exact ⟨pid, hpid, hpos⟩
    | qos2AwaitComp pid =>
        rw [hstate] at hshape
        exact ⟨pid, rfl, hshape.1⟩
  · rw [Session.safe_iff_roomy hcfg hqueued]
    constructor
    · rintro ⟨hid, hfresh, hroom⟩
      refine ⟨hid, hfresh, fun e he hlasting => ?_⟩
      have hentry := hroom e he
      rwa [InflightEntry.Roomy, if_pos hlasting] at hentry
    · rintro ⟨hid, hfresh, hroom⟩
      refine ⟨hid, hfresh, fun e he => ?_⟩
      unfold InflightEntry.Roomy
      split
      next hlasting => exact hroom e he hlasting
      next => exact (hqueued e he).2

/-- A blob with one message past its PUBREC and a thousand attempts left. -/
theorem restored_safe_iff_thousand :
    decodeInflight [0, 1, 3, 255, 255, 252, 23, 0, 1] 0 ⟨5, 5, 60⟩ =
        some (1, [⟨.qos2AwaitComp 1, 4294966295, 60⟩]) ∧
      Session.Safe ⟨5, 5, 60⟩ { Session.new "c" none 60 0 with
        nextId := 1, inflight := [⟨.qos2AwaitComp 1, 4294966295, 60⟩] } 1000 := by
  have hdecode : decodeInflight [0, 1, 3, 255, 255, 252, 23, 0, 1] 0 ⟨5, 5, 60⟩ =
      some (1, [⟨.qos2AwaitComp 1, 4294966295, 60⟩]) := by decide +kernel
  have hiff := (restored_safe_iff _ 0 ⟨5, 5, 60⟩ (by decide) (Session.new "c" none 60 0) 1000).2
    _ _ hdecode
  exact ⟨hdecode, hiff.2.mpr ⟨by decide, by decide, by decide⟩⟩

/-- A counter of 0 is decoded and panics at the next QoS 1 delivery; attempts at the
limit are decoded and overflow at the next tick. -/
theorem restored_panics :
    (decodeInflight [0, 0] 0 ⟨5, 5, 60⟩ = some (0, []) ∧
      Machine.run (Session.checkedStep ⟨5, 5, 60⟩)
        { Session.new "c" none 60 0 with nextId := 0, inflight := [] }
        [.deliver "t" [] .atLeastOnce false 0] = none) ∧
    (decodeInflight [0, 1, 3, 255, 255, 255, 255, 0, 1] 0 ⟨5, 5, 60⟩ =
        some (1, [⟨.qos2AwaitComp 1, 4294967295, 60⟩]) ∧
      Machine.run (Session.checkedStep ⟨5, 5, 60⟩)
        { Session.new "c" none 60 0 with
          nextId := 1, inflight := [⟨.qos2AwaitComp 1, 4294967295, 60⟩] }
        [.attach, .tickRetries 60] = none) := by
  decide +kernel

end Relay
