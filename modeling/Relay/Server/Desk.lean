import Relay.Foundation.Program
import Relay.Server.Handler

/-! # All handlers together

Any number of connection handlers over one hub. A call that is one lock scope of the
hub is performed at once; the sections of the other calls are steps of their own, so
that everything else may happen between them, and their answers are not restricted.
The log keeps the calls in the order in which they are made, each with the input it is
made for.
-/

namespace Relay

/-- A call of a handler: the number of the input that it is made for, none after the
loop, and whether the session is in the table whose identifiers it checks or clears. -/
structure Entry where
  ticket : Option Nat
  call : Call
  result : call.Result
  present : Bool

/-- Handlers by connection, each with the number of its latest input; the inputs, with
the handler's variables before them; and the calls. -/
structure Desk where
  hub : Hub
  handlers : Nat → Option (Nat × Phase)
  inputs : List (Nat × Conn × Input)
  log : List Entry

inductive DeskStep where
  | accept (c : Nat) (peer : String)
  | receive (c : Nat) (input : Input)
  | own (c now : Nat) (given : (call : Call) → call.Result)
  | env (a : Section)

/-- Only handlers check and clear inbound identifiers. -/
def Section.dedups : Section → Bool
  | .qos2Seen _ _ => true
  | .qos2Release _ _ => true
  | _ => false

namespace Hub

/-- Whether the session is in the table that a QoS 2 call is for. -/
def knows (h : Hub) : Call → Bool
  | .inboundQos2Seen id _ => (h.sessions.byId.lookup id).isSome
  | .inboundQos2Release id _ => (h.sessions.byId.lookup id).isSome
  | _ => true

def answer (h : Hub) (now : Nat) (given : (call : Call) → call.Result) :
    (call : Call) → Option (call.Result × Hub)
  | .connect clientId cleanStart expirySecs => h.connect clientId cleanStart expirySecs now
  | .inboundQos2Seen id pid => some (h.inboundQos2Seen id pid)
  | .inboundQos2Release id pid => some ((), h.inboundQos2Release id pid)
  | call => some (given call, h)

end Hub

namespace Desk

def start (hub : Hub) : Desk := ⟨hub, fun _ => none, [], []⟩

def step (cfg : HandlerConfig) (d : Desk) : DeskStep → Option Desk
  | .accept c peer =>
      match d.handlers c with
      | none =>
          some { d with
            handlers := Function.update d.handlers c (some (0, .waiting (Conn.start peer))) }
      | some _ => none
  | .receive c input =>
      match d.handlers c with
      | some (_, .waiting conn) =>
          if input.ready conn then
            some { d with
              handlers := Function.update d.handlers c
                (some (d.inputs.length, .settle conn input (conn.onInput cfg input)))
              inputs := d.inputs ++ [(c, conn, input)] }
          else none
      | _ => none
  | .own c now given =>
      match d.handlers c with
      | some (t, .busy conn input (.call call next)) =>
          (d.hub.answer now given call).map fun out =>
            { d with
              hub := out.2
              handlers := Function.update d.handlers c
                (some (t, .settle conn input (next out.1)))
              log := d.log ++ [⟨some t, call, out.1, d.hub.knows call⟩] }
      | some (t, .ending conn (.call call next)) =>
          (d.hub.answer now given call).map fun out =>
            { d with
              hub := out.2
              handlers := Function.update d.handlers c (some (t, .ending conn (next out.1)))
              log := d.log ++ [⟨none, call, out.1, d.hub.knows call⟩] }
      | _ => none
  | .env a => if a.dedups then none else (d.hub.act a).map fun h => { d with hub := h }

def callsOf (d : Desk) (t : Nat) : List ((call : Call) × call.Result) :=
  (d.log.filter fun e => e.ticket = some t).map fun e => ⟨e.call, e.result⟩

def Over (d : Desk) (t : Nat) : Prop :=
  ∀ c conn input rest, d.handlers c ≠ some (t, .busy conn input rest)

/-- What a step does to the log and to the hub. -/
inductive Moved (d d' : Desk) : Prop where
  | quiet (hub : d'.hub = d.hub) (log : d'.log = d.log)
  | call (ticket : Option Nat) (call : Call) (result : call.Result) (now : Nat)
      (given : (call : Call) → call.Result)
      (answer : d.hub.answer now given call = some (result, d'.hub))
      (log : d'.log = d.log ++ [⟨ticket, call, result, d.hub.knows call⟩])
  | env (a : Section) (dedups : a.dedups = false) (hub : d.hub.act a = some d'.hub)
      (log : d'.log = d.log)

/-- A step logs one call with its answer, or none; without a call no inbound identifier is
checked or cleared. -/
theorem moved_step {cfg : HandlerConfig} {d d' : Desk} {st : DeskStep}
    (hstep : d.step cfg st = some d') : Moved d d' := by
  cases st with
  | accept c peer =>
      simp only [step] at hstep
      split at hstep
      · cases hstep
        exact .quiet rfl rfl
      · cases hstep
  | receive c input =>
      simp only [step] at hstep
      split at hstep
      · split at hstep
        · cases hstep
          exact .quiet rfl rfl
        · cases hstep
      · cases hstep
  | own c now given =>
      simp only [step] at hstep
      split at hstep
      next t conn input call next _ =>
        obtain ⟨⟨result, h⟩, hanswer, rfl⟩ := Option.map_eq_some_iff.mp hstep
        exact .call (some t) call result now given hanswer rfl
      next t conn call next _ =>
        obtain ⟨⟨result, h⟩, hanswer, rfl⟩ := Option.map_eq_some_iff.mp hstep
        exact .call none call result now given hanswer rfl
      next => cases hstep
  | env a =>
      simp only [step] at hstep
      split at hstep
      · cases hstep
      next hdedups =>
        obtain ⟨h, hact, rfl⟩ := Option.map_eq_some_iff.mp hstep
        exact .env a (Bool.eq_false_iff.mpr hdedups) hact rfl

/-! ## Every input is handled by its own text -/

/-- The calls made for an input are those that the handler's text makes for it, up to
where the handler is. -/
structure Orderly (cfg : HandlerConfig) (d : Desk) : Prop where
  tickets : ∀ e ∈ d.log, ∀ t ∈ e.ticket, t < d.inputs.length
  busy : ∀ c t conn input rest, d.handlers c = some (t, .busy conn input rest) →
    d.inputs[t]? = some (c, conn, input) ∧ (conn.onInput cfg input).Leads (d.callsOf t) rest
  turns : ∀ t c conn input, d.inputs[t]? = some (c, conn, input) →
    (∃ out, (conn.onInput cfg input).Leads (d.callsOf t) (.done out)) ∨
      ∃ rest, d.handlers c = some (t, .busy conn input rest)

theorem orderly_start (cfg : HandlerConfig) (hub : Hub) : (start hub).Orderly cfg := by
  refine ⟨?_, ?_, ?_⟩
  · intro e he
    cases he
  · intro c t conn input rest hbusy
    cases hbusy
  · intro t c conn input hinput
    simp [start] at hinput

theorem settle_eq_busy_iff {conn conn' : Conn} {input input' : Input}
    {prog rest : Handler (Flow × Conn)} :
    Phase.settle conn input prog = .busy conn' input' rest ↔
      conn = conn' ∧ input = input' ∧ prog = rest ∧ ∀ out, prog ≠ .done out := by
  cases prog with
  | done out =>
      obtain ⟨flow, conn''⟩ := out
      cases flow <;> simp [Phase.settle]
  | call c next => simp [Phase.settle]

/-- A program that is not done keeps the handler busy. -/
theorem done_or_busy (conn : Conn) (input : Input) (prog : Handler (Flow × Conn)) :
    (∃ out, prog = .done out) ∨ Phase.settle conn input prog = .busy conn input prog := by
  cases prog with
  | done out => exact Or.inl ⟨out, rfl⟩
  | call c next => exact Or.inr rfl

/-- A handler that is not busy before and not busy afterwards. -/
theorem Orderly.idle {cfg : HandlerConfig} {d d' : Desk} (hd : d.Orderly cfg) {c t' : Nat}
    {phase : Phase} (hbefore : d.handlers c = none ∨
      ∃ t conn rest, d.handlers c = some (t, .ending conn rest))
    (hafter : ∀ conn input rest, phase ≠ .busy conn input rest)
    (hhandlers : d'.handlers = Function.update d.handlers c (some (t', phase)))
    (hinputs : d'.inputs = d.inputs) (hcalls : ∀ t, d'.callsOf t = d.callsOf t)
    (htickets : ∀ e ∈ d'.log, ∀ t ∈ e.ticket, t < d.inputs.length) : d'.Orderly cfg where
  tickets := by
    rw [hinputs]
    exact htickets
  busy c' t conn input rest hbusy := by
    rw [hhandlers, Function.update_apply] at hbusy
    rw [hinputs, hcalls]
    split at hbusy
    · cases hbusy
      exact absurd rfl (hafter conn input rest)
    · exact hd.busy c' t conn input rest hbusy
  turns t c' conn input hinput := by
    rw [hinputs] at hinput
    rw [hcalls]
    refine (hd.turns t c' conn input hinput).imp_right fun ⟨rest, hbusy⟩ => ⟨rest, ?_⟩
    rw [hhandlers, Function.update_of_ne, hbusy]
    rintro rfl
    rcases hbefore with hnone | ⟨t₀, conn₀, rest₀, hending⟩
    · rw [hnone] at hbusy
      cases hbusy
    · rw [hending] at hbusy
      cases hbusy

theorem callsOf_of_log {d d' : Desk} {e : Entry} (hlog : d'.log = d.log ++ [e]) (t : Nat) :
    d'.callsOf t = d.callsOf t ++ if e.ticket = some t then [⟨e.call, e.result⟩] else [] := by
  unfold callsOf
  rw [hlog, List.filter_append, List.map_append]
  congr 1
  by_cases hticket : e.ticket = some t <;> simp [hticket]

/-- Nothing has been called for the next input. -/
theorem Orderly.leads_next {cfg : HandlerConfig} {d : Desk} (hd : d.Orderly cfg)
    (prog : Handler (Flow × Conn)) : prog.Leads (d.callsOf d.inputs.length) prog := by
  have hnone : d.callsOf d.inputs.length = [] := by
    unfold callsOf
    rw [List.map_eq_nil_iff, List.filter_eq_nil_iff]
    intro e he hticket
    exact Nat.lt_irrefl _ (hd.tickets e he _ (of_decide_eq_true hticket))
  rw [hnone]
  exact .refl prog

/-- A new input begins with no calls. -/
theorem Orderly.receive {cfg : HandlerConfig} {d : Desk} (hd : d.Orderly cfg) {c t₀ : Nat}
    {conn : Conn} (hwaiting : d.handlers c = some (t₀, .waiting conn)) (input : Input) :
    Orderly cfg { d with
      handlers := Function.update d.handlers c
        (some (d.inputs.length, .settle conn input (conn.onInput cfg input)))
      inputs := d.inputs ++ [(c, conn, input)] } where
  tickets e he t ht := by
    rw [List.length_append]
    exact (hd.tickets e he t ht).trans_le (Nat.le_add_right _ _)
  busy c' t conn' input' rest hbusy := by
    dsimp only at hbusy ⊢
    rw [Function.update_apply] at hbusy
    split at hbusy
    next heq =>
      subst heq
      simp only [Option.some.injEq, Prod.mk.injEq, settle_eq_busy_iff] at hbusy
      obtain ⟨rfl, rfl, rfl, rfl, -⟩ := hbusy
      exact ⟨by simp, hd.leads_next _⟩
    next =>
      obtain ⟨hold, hleads⟩ := hd.busy c' t conn' input' rest hbusy
      rw [List.getElem?_append_left (List.getElem?_eq_some_iff.mp hold).1]
      exact ⟨hold, hleads⟩
  turns t c' conn' input' hinput := by
    dsimp only at hinput ⊢
    by_cases hlt : t < d.inputs.length
    · rw [List.getElem?_append_left hlt] at hinput
      refine (hd.turns t c' conn' input' hinput).imp_right fun ⟨rest, hbusy⟩ => ⟨rest, ?_⟩
      rw [Function.update_of_ne, hbusy]
      rintro rfl
      rw [hwaiting] at hbusy
      cases hbusy
    · have hlast : t = d.inputs.length := by
        have hbound := (List.getElem?_eq_some_iff.mp hinput).1
        rw [List.length_append, List.length_singleton] at hbound
        omega
      subst hlast
      simp only [List.getElem?_concat_length, Option.some.injEq, Prod.mk.injEq] at hinput
      obtain ⟨rfl, rfl, rfl⟩ := hinput
      rcases done_or_busy conn input (conn.onInput cfg input) with ⟨out, hout⟩ | hbusy
      · exact Or.inl ⟨out, hout ▸ hd.leads_next _⟩
      · exact Or.inr ⟨_, by rw [Function.update_self, hbusy]⟩

/-- The next call is the one that the text makes after the answers so far. -/
theorem Orderly.call {cfg : HandlerConfig} {d d' : Desk} (hd : d.Orderly cfg) {c t : Nat}
    {conn : Conn} {input : Input} {call : Call} {next : call.Result → Handler (Flow × Conn)}
    (hbusy : d.handlers c = some (t, .busy conn input (.call call next))) {result : call.Result}
    {present : Bool}
    (hhandlers : d'.handlers = Function.update d.handlers c
      (some (t, .settle conn input (next result))))
    (hinputs : d'.inputs = d.inputs)
    (hlog : d'.log = d.log ++ [⟨some t, call, result, present⟩]) : d'.Orderly cfg := by
  obtain ⟨hinput, hleads⟩ := hd.busy c t conn input _ hbusy
  -- the calls for the input in hand, and for any other one
  have hown : (conn.onInput cfg input).Leads (d'.callsOf t) (next result) := by
    rw [callsOf_of_log hlog, if_pos rfl]
    exact hleads.concat result
  have hother : ∀ t', t' ≠ t → d'.callsOf t' = d.callsOf t' := by
    intro t' hne
    rw [callsOf_of_log hlog, if_neg (by simpa using Ne.symm hne), List.append_nil]
  refine ⟨?_, ?_, ?_⟩
  · intro e he t' ht'
    rw [hinputs]
    rw [hlog] at he
    rcases List.mem_append.mp he with hold | hnew
    · exact hd.tickets e hold t' ht'
    · rw [List.mem_singleton.mp hnew] at ht'
      cases ht'
      exact (List.getElem?_eq_some_iff.mp hinput).1
  · intro c' t' conn' input' rest hbusy'
    rw [hhandlers, Function.update_apply] at hbusy'
    rw [hinputs]
    split at hbusy'
    next heq =>
      subst heq
      simp only [Option.some.injEq, Prod.mk.injEq, settle_eq_busy_iff] at hbusy'
      obtain ⟨rfl, rfl, rfl, rfl, -⟩ := hbusy'
      exact ⟨hinput, hown⟩
    next hne =>
      obtain ⟨hinput', hleads'⟩ := hd.busy c' t' conn' input' rest hbusy'
      refine ⟨hinput', ?_⟩
      rw [hother t']
      · exact hleads'
      · rintro rfl
        rw [hinput] at hinput'
        exact hne (Prod.mk.inj (Option.some.inj hinput')).1.symm
  · intro t' c' conn' input' hinput'
    rw [hinputs] at hinput'
    by_cases ht : t' = t
    · subst ht
      rw [hinput] at hinput'
      cases hinput'
      rcases done_or_busy conn input (next result) with ⟨out, hout⟩ | hsettle
      · exact Or.inl ⟨out, hout ▸ hown⟩
      · exact Or.inr ⟨_, by rw [hhandlers, Function.update_self, hsettle]⟩
    · rw [hother t' ht]
      refine (hd.turns t' c' conn' input' hinput').imp_right fun ⟨rest, hbusy'⟩ => ⟨rest, ?_⟩
      rw [hhandlers, Function.update_of_ne, hbusy']
      rintro rfl
      rw [hbusy] at hbusy'
      cases hbusy'
      exact ht rfl

/-- Other sections leave handlers and log alone. -/
theorem Orderly.step {cfg : HandlerConfig} {d d' : Desk} (hd : d.Orderly cfg) {st : DeskStep}
    (hstep : d.step cfg st = some d') : d'.Orderly cfg := by
  cases st with
  | accept c peer =>
      simp only [Desk.step] at hstep
      split at hstep
      next hnone =>
        cases hstep
        refine hd.idle (Or.inl hnone) ?_ rfl rfl (fun _ => rfl) hd.tickets
        simp
      next => cases hstep
  | receive c input =>
      simp only [Desk.step] at hstep
      split at hstep
      next hwaiting =>
        split at hstep
        · cases hstep
          exact hd.receive hwaiting input
        · cases hstep
      next => cases hstep
  | own c now given =>
      simp only [Desk.step] at hstep
      split at hstep
      next hbusy =>
        obtain ⟨out, -, rfl⟩ := Option.map_eq_some_iff.mp hstep
        exact hd.call hbusy rfl rfl rfl
      next hending =>
        obtain ⟨out, -, rfl⟩ := Option.map_eq_some_iff.mp hstep
        refine hd.idle (Or.inr ⟨_, _, _, hending⟩) ?_ rfl rfl ?_ ?_
        · simp
        · intro t
          rw [callsOf_of_log rfl, if_neg (by simp), List.append_nil]
        · intro e he t ht
          rcases List.mem_append.mp he with hold | hnew
          · exact hd.tickets e hold t ht
          · rw [List.mem_singleton.mp hnew] at ht
            cases ht
      next => cases hstep
  | env a =>
      simp only [Desk.step] at hstep
      split at hstep
      · cases hstep
      · obtain ⟨h, -, rfl⟩ := Option.map_eq_some_iff.mp hstep
        exact ⟨hd.tickets, hd.busy, hd.turns⟩

/-- The calls for an input, all of them once no handler is busy with it. -/
theorem Orderly.leads {cfg : HandlerConfig} {d : Desk} (hd : d.Orderly cfg) {t c : Nat}
    {conn : Conn} {input : Input} (hinput : d.inputs[t]? = some (c, conn, input)) :
    ∃ rest, (conn.onInput cfg input).Leads (d.callsOf t) rest ∧
      (d.Over t → ∃ out, rest = .done out) := by
  rcases hd.turns t c conn input hinput with ⟨out, hleads⟩ | ⟨rest, hbusy⟩
  · exact ⟨.done out, hleads, fun _ => ⟨out, rfl⟩⟩
  · exact ⟨rest, (hd.busy c t conn input rest hbusy).2, fun hover =>
      absurd hbusy (hover c conn input rest)⟩

end Desk

end Relay
