import Relay.Server.Ledger

/-! # The DUP flag

The PUBLISH packets that are put on the channel for one message. The queue keeps the
packet with the flag off, every redelivery turns it on, and nothing remembers whether the
packet was ever sent: what the first PUBLISH carries depends on whether the session was
online when the message was recorded.
-/

namespace Relay

open Roster (Record Follows Status)

/-- The flag is off in the first PUBLISH and on in the later ones, which are the same
packet otherwise. -/
structure DupFlags (p : Publish) (ps : List Publish) : Prop where
  first : p.dup = false
  later : ∀ q ∈ ps, q = { p with dup := true }

structure Sends (past : List (Record InflightEntry Trace)) (status : Status InflightEntry) :
    Prop where
  fresh : status = .fresh → past = []
  /-- The packets are those of the entry, but for the flag. -/
  same : ∀ e p, status = .live e → e.state.undelivered = some p →
    ∀ q ∈ publishesOf past, { q with dup := true } = { p with dup := true }
  later : ∀ q qs, publishesOf past = q :: qs → ∀ x ∈ qs, x = { q with dup := true }
  first : ∀ r ∈ past, r.before = none → ∀ q qs, publishesOf past = q :: qs →
    (q.dup = false ↔ ∃ p, r.note.packet = some (.publish p))

theorem publishesOf_concat (past : List (Record InflightEntry Trace))
    (r : Record InflightEntry Trace) :
    publishesOf (past ++ [r]) = publishesOf past ++ (r.note.packet.bind Packet.publish?).toList := by
  unfold publishesOf
  rw [List.filterMap_append]
  cases hpacket : r.note.packet.bind Packet.publish? <;> simp [hpacket]

variable {cfg : RetryConfig} {past : List (Record InflightEntry Trace)}
  {r : Record InflightEntry Trace} {e : InflightEntry}

theorem sends_nil (status : Status InflightEntry) : Sends [] status where
  fresh _ := rfl
  same _ _ _ _ _ hq := by cases hq
  later _ _ hqs := by cases hqs
  first _ hr := by cases hr

/-- The delivery that records the message sends it with the flag off, if it sends it. -/
theorem Sends.birth {s : Session} {hd : Handling} (hpast : Sends past .fresh)
    (hbirth : hd.Birth cfg s r.after r.note) : Sends (past ++ [r]) r.closes := by
  obtain rfl := hpast.fresh rfl
  generalize hafter : r.after = after, hnote : r.note = note at hbirth
  cases hbirth with
  | recorded topic payload qos retain now e hentry =>
      have hpublishes : publishesOf ([] ++ [r]) =
          if s.tx.isSome then [s.publishFor topic payload qos retain] else [] := by
        rw [publishesOf_concat, hnote]
        cases s.tx.isSome <;> rfl
      have hundelivered : ∀ p, e.state.undelivered = some p →
          p = s.publishFor topic payload qos retain := by
        intro p hp
        cases qos <;> cases hentry <;> cases hp <;> rfl
      refine ⟨fun h => absurd h r.closes_ne_fresh, ?_, ?_, ?_⟩
      · intro e' p hlive hp q hq
        rw [Record.closes_eq_live_iff, hafter] at hlive
        cases hlive
        rw [hpublishes] at hq
        split at hq
        · rw [List.mem_singleton.mp hq, hundelivered p hp]
        · cases hq
      · intro q qs hqs x hx
        rw [hpublishes] at hqs
        split at hqs
        · cases hqs
          cases hx
        · cases hqs
      · intro r₀ hr₀ _ q qs hqs
        obtain rfl : r₀ = r := by simpa using hr₀
        rw [hpublishes] at hqs
        split at hqs
        next honline =>
          cases hqs
          refine iff_of_true rfl ⟨s.publishFor topic payload qos retain, ?_⟩
          rw [hnote, if_pos honline]
        next => cases hqs

/-- A record that sends no PUBLISH. -/
theorem Sends.quiet (hpast : Sends past (.live e)) (hbefore : r.before = some e)
    (hnone : r.note.packet.bind Packet.publish? = none)
    (hkept : ∀ e', r.after = some e' → ∀ p, e'.state.undelivered = some p →
      e.state.undelivered = some p) : Sends (past ++ [r]) r.closes := by
  have hpublishes : publishesOf (past ++ [r]) = publishesOf past := by
    rw [publishesOf_concat, hnone, Option.toList_none, List.append_nil]
  refine ⟨fun h => absurd h r.closes_ne_fresh, ?_, ?_, ?_⟩
  · intro e' p hlive hp
    rw [hpublishes]
    rw [Record.closes_eq_live_iff] at hlive
    exact hpast.same e p rfl (hkept e' hlive p hp)
  · rw [hpublishes]
    exact hpast.later
  · rw [hpublishes]
    intro r₀ hr₀ hnew
    rcases List.mem_append.mp hr₀ with hold | hlast
    · exact hpast.first r₀ hold hnew
    · rw [List.mem_singleton.mp hlast, hbefore] at hnew
      cases hnew

/-- A redelivery sends the PUBLISH with the flag on. -/
theorem Sends.resent (hpast : Sends past (.live e)) (hbefore : r.before = some e) {p : Publish}
    (hp : e.state.undelivered = some p)
    (hpacket : r.note.packet = some (.publish { p with dup := true }))
    (hkept : ∀ e', r.after = some e' → e'.state = e.state) : Sends (past ++ [r]) r.closes := by
  have hpublishes : publishesOf (past ++ [r]) = publishesOf past ++ [{ p with dup := true }] := by
    rw [publishesOf_concat, hpacket]
    rfl
  have hsame := hpast.same e p rfl hp
  refine ⟨fun h => absurd h r.closes_ne_fresh, ?_, ?_, ?_⟩
  · intro e' p' hlive hp' q hq
    rw [Record.closes_eq_live_iff] at hlive
    rw [hkept e' hlive, hp] at hp'
    cases hp'
    rw [hpublishes] at hq
    rcases List.mem_append.mp hq with hold | hlast
    · exact hsame q hold
    · rw [List.mem_singleton.mp hlast]
  · intro q qs hqs x hx
    rw [hpublishes] at hqs
    cases hold : publishesOf past with
    | nil =>
        rw [hold] at hqs
        cases hqs
        cases hx
    | cons q₀ qs₀ =>
        rw [hold] at hqs
        cases hqs
        rcases List.mem_append.mp hx with hmid | hlast
        · exact hpast.later q qs₀ hold x hmid
        · rw [List.mem_singleton.mp hlast]
          exact (hsame q (hold ▸ List.mem_cons_self)).symm
  · intro r₀ hr₀ hnew q qs hqs
    have hmem : r₀ ∈ past := by
      rcases List.mem_append.mp hr₀ with hold | hlast
      · exact hold
      · rw [List.mem_singleton.mp hlast, hbefore] at hnew
        cases hnew
    rw [hpublishes] at hqs
    cases hold : publishesOf past with
    | nil =>
        -- nothing was sent before, so the delivery itself did not send
        rw [hold] at hqs
        cases hqs
        refine iff_of_false (fun h => nomatch h) ?_
        rintro ⟨p', hp'⟩
        have hsent : p' ∈ publishesOf past :=
          List.mem_filterMap.mpr ⟨r₀, hmem, by rw [hp']; rfl⟩
        rw [hold] at hsent
        cases hsent
    | cons q₀ qs₀ =>
        rw [hold] at hqs
        cases hqs
        exact hpast.first r₀ hmem hnew q qs₀ hold

/-- A redelivery sends the same packet with the flag on. -/
theorem Sends.redelivered (hpast : Sends past (.live e)) (hbefore : r.before = some e)
    (online : Bool) (hpacket : r.note.packet = if online then some e.state.redelivery else none)
    (hkept : ∀ e', r.after = some e' → e'.state = e.state) : Sends (past ++ [r]) r.closes := by
  have hquiet : r.note.packet.bind Packet.publish? = none → Sends (past ++ [r]) r.closes :=
    fun hnone => hpast.quiet hbefore hnone fun e' he' p hp => hkept e' he' ▸ hp
  cases online with
  | false => exact hquiet (by rw [hpacket]; rfl)
  | true =>
      cases hstate : e.state with
      | qos1 p => exact hpast.resent hbefore (by rw [hstate]; rfl) (by rw [hpacket, hstate]; rfl) hkept
      | qos2AwaitRec p =>
          exact hpast.resent hbefore (by rw [hstate]; rfl) (by rw [hpacket, hstate]; rfl) hkept
      | qos2AwaitComp pid => exact hquiet (by rw [hpacket, hstate]; rfl)

/-- One case for each move of an entry. -/
theorem Sends.move {online : Bool} {hd : Handling} (hpast : Sends past (.live e))
    (hbefore : r.before = some e) (hmove : hd.Move cfg online e r.after r.note) :
    Sends (past ++ [r]) r.closes := by
  generalize hafter : r.after = after, hnote : r.note = note at hmove
  have hleft : after = none → ∀ e', r.after = some e' → ∀ p, e'.state.undelivered = some p →
      e.state.undelivered = some p := by
    rintro rfl e' he'
    rw [hafter] at he'
    cases he'
  cases hmove with
  | spared =>
      refine hpast.quiet hbefore (hnote ▸ rfl) fun e' he' p hp => ?_
      rw [hafter] at he'
      cases he'
      exact hp
  | resent now =>
      refine hpast.redelivered hbefore online (by rw [hnote]) fun e' he' => ?_
      rw [hafter] at he'
      cases he'
      rfl
  | retried now =>
      refine hpast.redelivered hbefore online (by rw [hnote]) fun e' he' => ?_
      rw [hafter] at he'
      cases he'
      rfl
  | received pid p =>
      refine hpast.quiet hbefore ?_ fun e' he' p' hp' => ?_
      · rw [hnote]
        cases online <;> rfl
      · rw [hafter] at he'
        cases he'
        cases hp'
  | acked => exact hpast.quiet hbefore (hnote ▸ rfl) (hleft rfl)
  | completed => exact hpast.quiet hbefore (hnote ▸ rfl) (hleft rfl)
  | died => exact hpast.quiet hbefore (hnote ▸ rfl) (hleft rfl)
  | drained => exact hpast.quiet hbefore (hnote ▸ rfl) (hleft rfl)

namespace Watched

variable {s : Session} {w : Watched cfg}

theorem Account.sends (hw : w.Account s) (n : Nat) :
    Sends (w.history.filter (·.name = n)) (w.roster.status n) := by
  refine hw.follows.invariant (fun n => sends_nil _) ?_ n
  intro r hr past hpast
  obtain ⟨t, ht, hrt⟩ := List.mem_flatMap.mp hr
  cases hbefore : r.before with
  | none =>
      rw [Record.opens, hbefore] at hpast
      exact hpast.birth ((hw.lawful t ht).birth r hrt hbefore)
  | some e =>
      rw [Record.opens, hbefore] at hpast
      exact hpast.move hbefore ((hw.lawful t ht).move r hrt e hbefore)

/-- The flags are right for a message exactly if the session was online when the message
was recorded; the later packets are right in any case. -/
structure DupDiscipline (w : Watched cfg) : Prop where
  flags : ∀ t ∈ w.turns, ∀ r ∈ t.records, r.before = none →
    ∀ q qs, w.publishes r.name = q :: qs → (DupFlags q qs ↔ t.before.tx.isSome = true)
  later : ∀ n q qs, w.publishes n = q :: qs → ∀ x ∈ qs, x = { q with dup := true }

theorem Account.dupDiscipline (hw : w.Account s) : w.DupDiscipline where
  later n := (hw.sends n).later
  flags t ht r hr hbefore q qs hqs := by
    have hmem : r ∈ w.history.filter (·.name = r.name) :=
      List.mem_filter.mpr ⟨List.mem_flatMap.mpr ⟨t, ht, hr⟩, decide_eq_true rfl⟩
    have hfirst := (hw.sends r.name).first r hmem hbefore q qs hqs
    have honline : (∃ p, r.note.packet = some (.publish p)) ↔ t.before.tx.isSome = true := by
      have hbirth := (hw.lawful t ht).birth r hr hbefore
      generalize t.handling = hd, r.after = after, r.note = note at hbirth
      cases hbirth
      cases t.before.tx.isSome <;> simp
    constructor
    · intro hflags
      exact honline.mp (hfirst.mp hflags.first)
    · intro hsome
      exact ⟨hfirst.mpr (honline.mpr hsome), (hw.sends r.name).later q qs hqs⟩

/-- In every run of calls, from any session. -/
theorem dupDiscipline_always (cfg : RetryConfig) (s : Session) (handlings : List Handling) :
    Machine.Always step DupDiscipline (start cfg s) handlings :=
  Machine.always_of_invariant (Account s) (fun _ _ _ hw hstep => hw.step hstep)
    (fun _ hw => hw.dupDiscipline) (account_start s)

/-- A message queued for an offline client is first sent when the client is back, as a
duplicate. -/
theorem queued_offline_first_sent_as_dup :
    ∃ w, Machine.run step (start ⟨5, 5000000000, 60000000000⟩ (Session.new "c" none 3600 1))
        [.call (.deliver "t" [] .atLeastOnce false 0), .call .attach, .call (.retransmit 7)] =
          some w ∧
      w.publishes 0 = [⟨true, false, .atLeastOnce, "t", some 1, [], .default⟩] := by
  obtain ⟨w, hw⟩ := Option.isSome_iff_exists.mp (show (Machine.run step
    (start ⟨5, 5000000000, 60000000000⟩ (Session.new "c" none 3600 1))
    [.call (.deliver "t" [] .atLeastOnce false 0), .call .attach, .call (.retransmit 7)]).isSome from
      by decide +kernel)
  refine ⟨w, hw, ?_⟩
  have hpublishes : ∀ w ∈ Machine.run step
      (start ⟨5, 5000000000, 60000000000⟩ (Session.new "c" none 3600 1))
      [.call (.deliver "t" [] .atLeastOnce false 0), .call .attach, .call (.retransmit 7)],
      w.publishes 0 = [⟨true, false, .atLeastOnce, "t", some 1, [], .default⟩] := by decide +kernel
  exact hpublishes w hw

end Watched

end Relay
