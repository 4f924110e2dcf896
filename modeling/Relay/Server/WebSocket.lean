import Relay.Core.Message

/-! # MQTT over WebSocket

The reading side of `WsByteStream`. MQTT packets and WebSocket frames have nothing to do
with each other, so the payloads of all binary frames are read as one stream of bytes.
What the socket answers to the polls is given as a list; when it is used up the stream
has ended. A read hands out the rest of the last frame, or polls the socket until a
frame has bytes, or there is a reason to return.
-/

namespace Relay

/-- A WebSocket message. Only binary ones carry MQTT. -/
inductive WsMessage where
  | text (s : String)
  | binary (data : Bytes)
  | ping (data : Bytes)
  | pong (data : Bytes)
  | close
  | frame (data : Bytes)

/-- The bytes for the reader. -/
def WsMessage.payload : WsMessage → Bytes
  | .binary data => data
  | _ => []

inductive Poll (A : Type) where
  | ready (a : A)
  | pending

variable {E : Type}

inductive WsEvent (E : Type) where
  | message (m : WsMessage)
  | failed (e : E)
  | notReady

/-- `poll_next` of the socket; nothing more comes after the last event. -/
def pollNext : List (WsEvent E) → Poll (Option (Except E WsMessage)) × List (WsEvent E)
  | [] => (.ready none, [])
  | .message m :: rest => (.ready (some (.ok m)), rest)
  | .failed e :: rest => (.ready (some (.error e)), rest)
  | .notReady :: rest => (.pending, rest)

/-- The adapter: the socket, and the bytes of a frame not yet handed to the reader. -/
structure WsByteStream (E : Type) where
  ws : List (WsEvent E)
  readBuf : Bytes

/-- One round of the loop in `poll_read` returns or goes on. The bytes of a result are
those put into the reader's buffer. -/
inductive Round (E : Type) where
  | returns (result : Poll (Except E Bytes)) (s : WsByteStream E)
  | continues (s : WsByteStream E)

namespace WsByteStream

def new (ws : List (WsEvent E)) : WsByteStream E := ⟨ws, []⟩

def round (s : WsByteStream E) (remaining : Nat) : Round E :=
  if s.readBuf ≠ [] then
    let n := min s.readBuf.length remaining
    .returns (.ready (.ok (s.readBuf.take n))) { s with readBuf := s.readBuf.drop n }
  else
    match pollNext s.ws with
    | (.ready (some (.ok msg)), ws) =>
        match msg with
        | .binary data => .continues ⟨ws, data⟩
        -- a graceful close is the end of the file
        | .close => .returns (.ready (.ok [])) { s with ws := ws }
        | _ => .continues { s with ws := ws }
    | (.ready (some (.error e)), ws) => .returns (.ready (.error e)) { s with ws := ws }
    | (.ready none, ws) => .returns (.ready (.ok [])) { s with ws := ws }
    | (.pending, ws) => .returns .pending { s with ws := ws }

/-- A round that does not return has consumed a message and taken its bytes. -/
theorem exists_of_continues {s s' : WsByteStream E} {remaining : Nat}
    (hround : s.round remaining = .continues s') :
    s.readBuf = [] ∧ ∃ m, m ≠ .close ∧ s.ws = .message m :: s'.ws ∧ s'.readBuf = m.payload := by
  obtain ⟨ws, readBuf⟩ := s
  unfold round at hround
  split at hround
  · cases hround
  next hempty =>
    have hempty : readBuf = [] := not_not.mp hempty
    subst hempty
    refine ⟨rfl, ?_⟩
    cases ws with
    | nil => cases hround
    | cons event rest =>
        cases event with
        | failed e => cases hround
        | notReady => cases hround
        | message m =>
            cases m with
            | close => cases hround
            | _ =>
                cases hround
                exact ⟨_, WsMessage.noConfusion, rfl, rfl⟩

theorem length_of_continues {s s' : WsByteStream E} {remaining : Nat}
    (hround : s.round remaining = .continues s') : s'.ws.length < s.ws.length := by
  obtain ⟨-, m, -, hws, -⟩ := exists_of_continues hround
  simp [hws]

/-- `poll_read` with a buffer that has room for so many bytes. -/
def pollRead (s : WsByteStream E) (remaining : Nat) : Poll (Except E Bytes) × WsByteStream E :=
  match _hround : s.round remaining with
  | .returns result s' => (result, s')
  | .continues s' => pollRead s' remaining
termination_by s.ws.length
decreasing_by exact length_of_continues _hround

/-- Reads one after the other, with buffers of the given sizes. -/
def reads (s : WsByteStream E) : List Nat → List (Poll (Except E Bytes)) × WsByteStream E
  | [] => ([], s)
  | n :: sizes =>
      let (result, s') := s.pollRead n
      let (results, s'') := s'.reads sizes
      (result :: results, s'')

end WsByteStream

/-! ## The stream of bytes -/

/-- The bytes of the binary messages up to the first Close or the end. -/
def payloads : List (WsEvent E) → Bytes
  | [] => []
  | .message (.binary data) :: rest => data ++ payloads rest
  | .message .close :: _ => []
  | _ :: rest => payloads rest

/-- Polls up to there that make a read return without bytes. -/
def stalls : List (WsEvent E) → Nat
  | [] => 0
  | .message .close :: _ => 0
  | .message _ :: rest => stalls rest
  | .failed _ :: rest => stalls rest + 1
  | .notReady :: rest => stalls rest + 1

/-- A message without bytes for the reader. -/
def WsEvent.Idle (event : WsEvent E) : Prop :=
  ∃ m, event = .message m ∧ m ≠ .close ∧ m.payload = []

theorem payloads_message {m : WsMessage} (hm : m ≠ .close) (rest : List (WsEvent E)) :
    payloads (.message m :: rest) = m.payload ++ payloads rest := by
  cases m with
  | close => exact absurd rfl hm
  | _ => rfl

theorem stalls_message {m : WsMessage} (hm : m ≠ .close) (rest : List (WsEvent E)) :
    stalls (.message m :: rest) = stalls rest := by
  cases m with
  | close => exact absurd rfl hm
  | _ => rfl

theorem payloads_append_of_idle {skipped : List (WsEvent E)} (hidle : ∀ e ∈ skipped, e.Idle)
    (rest : List (WsEvent E)) : payloads (skipped ++ rest) = payloads rest := by
  induction skipped with
  | nil => rfl
  | cons event skipped ih =>
      obtain ⟨⟨m, rfl, hm, hpayload⟩, hskipped⟩ := List.forall_mem_cons.mp hidle
      rw [List.cons_append, payloads_message hm, hpayload, List.nil_append, ih hskipped]

def Poll.isEof : Poll (Except E Bytes) → Bool
  | .ready (.ok []) => true
  | _ => false

def delivered (results : List (Poll (Except E Bytes))) : Bytes :=
  results.flatMap fun
    | .ready (.ok bytes) => bytes
    | _ => []

namespace WsByteStream

/-- The bytes still to come: the rest of the last frame, and the frames ahead. -/
def ahead (s : WsByteStream E) : Bytes := s.readBuf ++ payloads s.ws

/-- The socket is at a Close or at its end, but for messages without bytes. -/
def AtEnd (s s' : WsByteStream E) : Prop :=
  s.readBuf = [] ∧ s'.readBuf = [] ∧ ∃ skipped, (∀ e ∈ skipped, e.Idle) ∧
    (s.ws = skipped ++ .message .close :: s'.ws ∨ s.ws = skipped ∧ s'.ws = [])

/-- What one read does: hand out bytes from the front of the stream, return without any at
an event that has none, or find the end. -/
def Outcome (s : WsByteStream E) (s' : WsByteStream E) : Poll (Except E Bytes) → Prop
  | .ready (.ok []) => s.AtEnd s'
  | .ready (.ok bytes) => s.ahead = bytes ++ s'.ahead ∧ stalls s.ws = stalls s'.ws
  | _ => s.ahead = s'.ahead ∧ stalls s.ws = stalls s'.ws + 1

theorem outcome_of_returns {s s' : WsByteStream E} {remaining : Nat} (hroom : 0 < remaining)
    {result : Poll (Except E Bytes)} (hround : s.round remaining = .returns result s') :
    s.Outcome s' result := by
  obtain ⟨ws, readBuf⟩ := s
  unfold round at hround
  split at hround
  next hbytes =>
    cases hround
    cases readBuf with
    | nil => exact absurd rfl hbytes
    | cons b bytes =>
        -- there is room for at least the first byte
        obtain ⟨n, hn⟩ : ∃ n, min (b :: bytes).length remaining = n + 1 :=
          Nat.exists_eq_add_one.mpr (Nat.lt_min.mpr ⟨Nat.succ_pos _, hroom⟩)
        rw [hn, List.take_succ_cons, List.drop_succ_cons]
        refine ⟨?_, rfl⟩
        simp only [ahead, List.cons_append, ← List.append_assoc, List.take_append_drop]
  next hempty =>
    have hempty : readBuf = [] := not_not.mp hempty
    subst hempty
    cases ws with
    | nil =>
        cases hround
        exact ⟨rfl, rfl, [], fun _ he => (nomatch he), Or.inr ⟨rfl, rfl⟩⟩
    | cons event rest =>
        cases event with
        | failed e =>
            cases hround
            exact ⟨rfl, rfl⟩
        | notReady =>
            cases hround
            exact ⟨rfl, rfl⟩
        | message m =>
            cases m with
            | close =>
                cases hround
                exact ⟨rfl, rfl, [], fun _ he => (nomatch he), Or.inl rfl⟩
            | _ => cases hround

/-- A message that is passed over leaves the stream as it is. -/
theorem Outcome.of_continues {s s₁ s' : WsByteStream E} {remaining : Nat}
    {result : Poll (Except E Bytes)} (hround : s.round remaining = .continues s₁)
    (houtcome : s₁.Outcome s' result) : s.Outcome s' result := by
  obtain ⟨hempty, m, hm, hws, hbuf⟩ := exists_of_continues hround
  have hahead : s.ahead = s₁.ahead := by
    rw [ahead, hempty, hws, payloads_message hm, ahead, hbuf, List.nil_append]
  have hstalls : stalls s.ws = stalls s₁.ws := by rw [hws, stalls_message hm]
  match result, houtcome with
  | .pending, hsame => exact ⟨hahead.trans hsame.1, hstalls.trans hsame.2⟩
  | .ready (.error e), hsame => exact ⟨hahead.trans hsame.1, hstalls.trans hsame.2⟩
  | .ready (.ok (b :: bytes)), hbytes => exact ⟨hahead.trans hbytes.1, hstalls.trans hbytes.2⟩
  | .ready (.ok []), ⟨hempty₁, hempty', skipped, hidle, hend⟩ =>
      -- the loop went on with an empty buffer, so the message had no bytes
      have hevent : (WsEvent.message m : WsEvent E).Idle := ⟨m, rfl, hm, hbuf.symm.trans hempty₁⟩
      refine ⟨hempty, hempty', .message m :: skipped, List.forall_mem_cons.mpr ⟨hevent, hidle⟩, ?_⟩
      rcases hend with hclose | ⟨hlast, hnil⟩
      · exact Or.inl (by rw [hws, hclose, List.cons_append])
      · exact Or.inr ⟨by rw [hws, hlast], hnil⟩

/-- The loop ends in a round that returns: every other one takes an event off the socket.
-/
theorem outcome_pollRead (s : WsByteStream E) {remaining : Nat} (hroom : 0 < remaining) :
    s.Outcome (s.pollRead remaining).2 (s.pollRead remaining).1 := by
  fun_induction pollRead s remaining with
  | case1 s result s' hround => exact outcome_of_returns hroom hround
  | case2 s s₁ hround ih => exact ih.of_continues hround

/-- Nothing is left of the stream where a read finds its end. -/
theorem AtEnd.ahead_eq_nil {s s' : WsByteStream E} (hend : s.AtEnd s') : s.ahead = [] := by
  obtain ⟨hempty, -, skipped, hidle, hclose | ⟨hlast, -⟩⟩ := hend
  · rw [ahead, hempty, hclose, payloads_append_of_idle hidle, payloads, List.nil_append]
  · have hnone := payloads_append_of_idle hidle []
    rw [List.append_nil] at hnone
    rw [ahead, hempty, hlast, hnone, payloads, List.nil_append]

/-! ## Many reads -/

theorem reads_cons (s : WsByteStream E) (n : Nat) (sizes : List Nat) :
    s.reads (n :: sizes) =
      ((s.pollRead n).1 :: ((s.pollRead n).2.reads sizes).1, ((s.pollRead n).2.reads sizes).2) :=
  rfl

/-- Reads before the end hand out the stream from its front; the read that finds the end
comes after all of it, and within as many reads as there are bytes and stalls. -/
theorem delivered_reads {sizes : List Nat} (hsizes : ∀ n ∈ sizes, 0 < n) (s : WsByteStream E) :
    let results := (s.reads sizes).1
    (∃ rest, s.ahead = delivered (results.takeWhile fun r => !r.isEof) ++ rest ∧
      (results.any Poll.isEof = true → rest = [])) ∧
      (s.ahead.length + stalls s.ws < sizes.length → results.any Poll.isEof = true) := by
  induction sizes generalizing s with
  | nil => exact ⟨⟨s.ahead, rfl, fun h => (nomatch h)⟩, fun h => absurd h (Nat.not_lt_zero _)⟩
  | cons n sizes ih =>
      obtain ⟨hn, hsizes⟩ := List.forall_mem_cons.mp hsizes
      have houtcome := s.outcome_pollRead hn
      obtain ⟨⟨rest, hrest, hend⟩, hlong⟩ := ih hsizes (s.pollRead n).2
      rw [reads_cons]
      dsimp only
      generalize (s.pollRead n).1 = result at *
      generalize (s.pollRead n).2 = s' at *
      match result, houtcome with
      | .pending, ⟨hahead, hstalls⟩ =>
          refine ⟨⟨rest, hahead.trans hrest, hend⟩, fun hlength => hlong ?_⟩
          rw [hahead, hstalls, List.length_cons] at hlength
          omega
      | .ready (.error e), ⟨hahead, hstalls⟩ =>
          refine ⟨⟨rest, hahead.trans hrest, hend⟩, fun hlength => hlong ?_⟩
          rw [hahead, hstalls, List.length_cons] at hlength
          omega
      | .ready (.ok (b :: bytes)), ⟨hahead, hstalls⟩ =>
          refine ⟨⟨rest, ?_, hend⟩, fun hlength => hlong ?_⟩
          · rw [hahead, hrest, ← List.append_assoc]
            rfl
          · rw [hahead, hstalls, List.length_append, List.length_cons, List.length_cons] at hlength
            omega
      | .ready (.ok []), hatEnd =>
          exact ⟨⟨[], hatEnd.ahead_eq_nil, fun _ => rfl⟩, fun _ => rfl⟩

/-- What reads with non-empty buffers return, taken together, is the bytes of the binary
messages up to the first Close or the end: at any time the front of them, and all of
them once a read finds the end, which happens after no more reads than there are bytes
and stalls. A read of zero bytes means a Close or the end, with nothing but messages
without bytes before it. A round of the loop consumes a message or returns. -/
theorem reads_eq_payloads (ws : List (WsEvent E)) (sizes : List Nat) (hsizes : ∀ n ∈ sizes, 0 < n) :
    let results := ((new ws).reads sizes).1
    let before := results.takeWhile fun r => !r.isEof
    delivered before <+: payloads ws ∧
      (results.any Poll.isEof = true → delivered before = payloads ws) ∧
      ((payloads ws).length + stalls ws < sizes.length → results.any Poll.isEof = true) ∧
      (∀ (s s' : WsByteStream E) (n : Nat), 0 < n → s.pollRead n = (.ready (.ok []), s') →
        s.readBuf = [] ∧ ∃ skipped, (∀ e ∈ skipped, e.Idle) ∧
          (s.ws = skipped ++ .message .close :: s'.ws ∨ s.ws = skipped)) ∧
      ∀ (s s' : WsByteStream E) (n : Nat), s.round n = .continues s' →
        ∃ event, s.ws = event :: s'.ws := by
  intro results before
  obtain ⟨⟨rest, hrest, hend⟩, hlong⟩ := delivered_reads hsizes (new ws)
  refine ⟨⟨rest, hrest.symm⟩, fun heof => ?_, hlong, ?_, ?_⟩
  · rw [hend heof, List.append_nil] at hrest
    exact hrest.symm
  · intro s s' n hn hread
    have houtcome := s.outcome_pollRead hn
    rw [hread] at houtcome
    obtain ⟨hempty, -, skipped, hidle, hclose⟩ := houtcome
    exact ⟨hempty, skipped, hidle, hclose.imp_right And.left⟩
  · intro s s' n hround
    obtain ⟨-, m, -, hws, -⟩ := exists_of_continues hround
    exact ⟨.message m, hws⟩

/-- Empty and ignored frames, a poll that is not ready, and bytes after the Close. -/
theorem reads_eq_payloads_mixed :
    let ws : List (WsEvent Unit) :=
      [.message (.ping []), .message (.binary []), .message (.binary [1, 2, 3]), .notReady,
        .message (.text "x"), .message (.binary [4]), .message .close, .message (.binary [9])]
    delivered (((new ws).reads [2, 2, 2, 2, 2, 2]).1.takeWhile fun r => !r.isEof) =
      [1, 2, 3, 4] := by
  intro ws
  obtain ⟨-, hall, hlong, -⟩ := reads_eq_payloads ws [2, 2, 2, 2, 2, 2] (by decide)
  exact hall (hlong (by decide))

end WsByteStream

end Relay
