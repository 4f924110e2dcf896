import Relay.Server.Lengths

/-! # What stored and sent messages say

Topic and payload of a message survive every form the broker keeps it in: what the stores
hold is as concrete as what came in, and what is sent is a copy of what came in. The
broker itself checks neither. A wildcard in the topic of a PUBLISH, of a Will or in a
client identifier goes into the stores, and the properties of a PUBLISH are dropped when
it is accepted.
-/

namespace Relay

/-! ## Topics without wildcards -/

/-- The topics in the retained store, in the queues and in the event log are concrete. -/
structure Hub.StoresConcrete (h : Hub) : Prop where
  retained : ∀ topic m, h.retained.byTopic.lookup topic = some m → Concrete m.topic
  queues : h.Each fun s => ∀ e ∈ s.inflight, ∀ p ∈ e.state.undelivered, Concrete p.topic
  events : ∀ d ∈ h.disk, ∀ row ∈ d.storage.events.toList, ∀ topic payload qos,
    decodeEvent row.2 = some (topic, payload, qos) → Concrete topic

/-- A dead letter of a client with a concrete identifier has a concrete topic. -/
theorem concrete_dlqTopic {client topic : String} (hclient : Concrete client)
    (htopic : Concrete topic) : Concrete (Hub.dlqTopic client topic) := by
  have hroot : Concrete "$dlq/" := by decide +kernel
  have hslash : Concrete "/" := by decide +kernel
  simp only [Concrete, Hub.dlqTopic, String.toList_append, List.mem_append, not_or]
  exact ⟨⟨⟨⟨hroot.1, hclient.1⟩, hslash.1⟩, htopic.1⟩, ⟨⟨⟨hroot.2, hclient.2⟩, hslash.2⟩, htopic.2⟩⟩

/-- Concrete topics, and what makes the topic of a dead letter concrete. -/
theorem lineage_concrete :
    Lineage (fun topic payload => Concrete topic ∧ WireFits topic payload)
      fun client topic => Concrete client ∧ LeavesRoom client topic where
  fits _ _ hcontent := hcontent.2
  dead client topic payload hcontent hdlq hkind :=
    ⟨concrete_dlqTopic hkind.1 hcontent.1,
      lineage_wireFits.dead client topic payload hcontent.2 hdlq hkind.2⟩

namespace System

/-- The step brings in concrete topics only, and the messages it dead-letters are those of
clients with concrete identifiers and leave room for them. -/
structure KeepsConcrete (s : System) (a : SystemStep) : Prop where
  brings : ∀ o ∈ s.brings a, Concrete o.topic
  clients : ∀ entry ∈ s.taken a, isDlqTopic entry.2.publish.topic = false → Concrete entry.1
  fit : s.DeadLettersFit a

instance (s : System) (a : SystemStep) : Decidable (s.KeepsConcrete a) :=
  decidable_of_iff ((∀ o ∈ s.brings a, Concrete o.topic) ∧
    (∀ entry ∈ s.taken a, isDlqTopic entry.2.publish.topic = false → Concrete entry.1) ∧
      s.DeadLettersFit a)
    ⟨fun h => ⟨h.1, h.2.1, h.2.2⟩, fun h => ⟨h.brings, h.clients, h.fit⟩⟩

/-- While the clients send concrete topics and the identifiers of those whose messages are
dead-lettered are concrete, the stores hold concrete topics only. -/
theorem storesConcrete_of_keepsConcrete (cfg : HandlerConfig) (durable : Bool)
    (retry : RetryConfig) (eventLogMax now : Nat) (steps : List SystemStep)
    (hkeeps : Machine.Meets (step cfg) KeepsConcrete (start durable retry eventLogMax now) steps) :
    Machine.Always (step cfg) (fun s => s.hub.StoresConcrete)
      (start durable retry eventLogMax now) steps := by
  refine Machine.always_of_meets
    (Carries fun topic payload => Concrete topic ∧ WireFits topic payload) KeepsConcrete
    (fun s a s' hs hok hstep => ?_) (fun s hs => ?_) (carries_start durable retry eventLogMax now)
    hkeeps
  · refine hs.step lineage_concrete ⟨fun o ho => ?_, fun entry hentry hdlq => ?_⟩ hstep
    · exact ⟨hok.brings o ho, fits_of_mem_brings hstep ho⟩
    · exact ⟨hok.clients entry hentry hdlq, hok.fit entry hentry hdlq⟩
  · constructor
    case retained =>
      intro topic m hm
      exact (hs.hub.retained topic m hm).1
    case queues =>
      intro id session hsession e he p hp
      exact ((hs.hub.sessions id session hsession).queue e he p hp).1
    case events =>
      intro d hd row hrow topic payload qos hdecode
      exact ((hs.hub.disk d hd).storage.events row hrow topic payload qos hdecode).1

def listens : List SystemStep :=
  [.receive 1 (.packet (.subscribe 1 [("#", .atLeastOnce)]))] ++ acts 1 0 5

/-- A client publishes a retained message at QoS 1 and gets it back itself. -/
theorem storesConcrete_of_keepsConcrete_retained :
    let steps : List SystemStep := joins ++ listens ++
      [.receive 1 (.packet (.publish ⟨false, true, .atLeastOnce, "a/b", some 7, [1], .default⟩))] ++
      acts 1 0 10
    (∃ s ∈ Machine.run (step openConfig) (start true ⟨1, 1, 1⟩ 9 0) steps,
      (s.hub.retained.byTopic.lookup "a/b").isSome) ∧
      Machine.Always (step openConfig) (fun s => s.hub.StoresConcrete)
        (start true ⟨1, 1, 1⟩ 9 0) steps :=
  ⟨by decide +kernel,
    storesConcrete_of_keepsConcrete openConfig true ⟨1, 1, 1⟩ 9 0 _ (by decide +kernel)⟩

/-- A client with permission for every topic publishes a retained message to one with a
wildcard. -/
theorem storesConcrete_fails_wildcard :
    ∃ s ∈ Machine.run (step openConfig) (start true ⟨1, 1, 1⟩ 9 0)
      (joins ++
        [.receive 1 (.packet (.publish ⟨false, true, .atMostOnce, "a/+", none, [1], .default⟩))] ++
        acts 1 0 4),
      ∃ m ∈ s.hub.retained.byTopic.lookup "a/+", ¬ Concrete m.topic := by
  decide +kernel

end System

/-! ## Copies of what came in -/

/-- Same topic, payload and properties; a replay adds its offset. -/
structure Publish.CopyOf (p q : Publish) : Prop where
  topic : p.topic = q.topic
  payload : p.payload = q.payload
  properties : p.properties = q.properties ∨ ∃ offset, p.properties = q.properties.atOffset offset

/-- A packet that the broker sends is a copy of a PUBLISH that came in, has the contents of a
Will, or is a dead letter of one of them. -/
def SentFor (log : List Origin) (p : Publish) : Prop :=
  (∃ q, .publish q ∈ log ∧ p.CopyOf q) ∨
    (∃ w, .will w ∈ log ∧ p.topic = w.topic ∧ p.payload = w.payload) ∨
      ∃ client, ∃ o ∈ log, p.topic = Hub.dlqTopic client o.topic ∧ p.payload = o.payload

/-- A Will, or a PUBLISH without properties. -/
def Origin.Plain : Origin → Prop
  | .publish q => q.properties = .default
  | .will _ => True

instance (o : Origin) : Decidable o.Plain :=
  match o with
  | .publish _ => inferInstanceAs (Decidable (_ = _))
  | .will _ => isTrue trivial

/-- The contents came in without properties, or are those of a dead letter. -/
def StemsFrom (log : List Origin) (topic : String) (payload : Bytes) : Prop :=
  (∃ o ∈ log, o.Plain ∧ topic = o.topic ∧ payload = o.payload) ∨
    ∃ client, ∃ o ∈ log, topic = Hub.dlqTopic client o.topic ∧ payload = o.payload

theorem isDlqTopic_dlqTopic (client topic : String) :
    isDlqTopic (Hub.dlqTopic client topic) = true := by
  apply Text.startsWith_iff.mpr
  exact ⟨client ++ ("/" ++ topic), by simp only [Hub.dlqTopic, String.append_assoc]⟩

/-- Dead letters stem from what stems from the log. -/
theorem lineage_stemsFrom (log : List Origin) :
    Lineage (fun topic payload => StemsFrom log topic payload ∧ WireFits topic payload)
      LeavesRoom where
  fits _ _ hcontent := hcontent.2
  dead client topic payload hcontent hdlq hroom := by
    refine ⟨?_, lineage_wireFits.dead client topic payload hcontent.2 hdlq hroom⟩
    rcases hcontent.1 with ⟨o, ho, -, rfl, rfl⟩ | ⟨client', o, -, rfl, -⟩
    · exact Or.inr ⟨client, o, ho, rfl, rfl⟩
    · rw [isDlqTopic_dlqTopic] at hdlq
      cases hdlq

theorem Publish.Copies.sentFor {log : List Origin} {p : Publish}
    (hcopies : p.Copies fun topic payload => StemsFrom log topic payload ∧ WireFits topic payload) :
    SentFor log p := by
  rcases hcopies.content.1 with ⟨o, ho, hplain, htopic, hpayload⟩ | hletter
  · cases o with
    | publish q =>
        refine Or.inl ⟨q, ho, htopic, hpayload, ?_⟩
        rw [show q.properties = .default from hplain]
        exact hcopies.properties
    | will w => exact Or.inr (Or.inl ⟨w, ho, htopic, hpayload⟩)
  · exact Or.inr (Or.inr hletter)

namespace System

/-- Everything on the channels was sent for something that came in. -/
def Intact (s : System) : Prop :=
  s.hub.Each fun session => ∀ packets ∈ session.tx, ∀ p, .publish p ∈ packets → SentFor s.origins p

/-- The step brings in no properties, and the messages it dead-letters leave room. -/
structure KeepsPlain (s : System) (a : SystemStep) : Prop where
  brings : ∀ o ∈ s.brings a, o.Plain
  fit : s.DeadLettersFit a

instance (s : System) (a : SystemStep) : Decidable (s.KeepsPlain a) :=
  decidable_of_iff ((∀ o ∈ s.brings a, o.Plain) ∧ s.DeadLettersFit a)
    ⟨fun h => ⟨h.1, h.2⟩, fun h => ⟨h.brings, h.fit⟩⟩

/-- The run lemma. The log is that of the end of the run, or a longer one: what comes in on
the way is in it. -/
theorem carries_stemsFrom {cfg : HandlerConfig} {log : List Origin} {s t : System}
    {steps : List SystemStep} (hrun : Machine.run (step cfg) s steps = some t)
    (hlog : t.origins ⊆ log) (hplain : Machine.Meets (step cfg) KeepsPlain s steps)
    (hs : s.Carries fun topic payload => StemsFrom log topic payload ∧ WireFits topic payload) :
    t.Carries fun topic payload => StemsFrom log topic payload ∧ WireFits topic payload := by
  induction steps generalizing s with
  | nil =>
      cases hrun
      exact hs
  | cons a steps ih =>
      obtain ⟨s', hstep, hrest⟩ := Machine.run_cons_eq_some.mp hrun
      have hbrings : s.brings a ⊆ log := by
        have hlater := List.Subset.trans (origins_subset_run hrest) hlog
        rw [origins_step hstep] at hlater
        exact List.Subset.trans (List.subset_append_right _ _) hlater
      refine ih hrest (hplain.2 s' hstep) ?_
      refine hs.step (lineage_stemsFrom log) ⟨fun o ho => ?_, hplain.1.fit⟩ hstep
      exact ⟨Or.inl ⟨o, hbrings ho, hplain.1.brings o ho, rfl, rfl⟩, fits_of_mem_brings hstep ho⟩

/-- While the clients send no properties and the dead letters fit, every packet that the
broker sends, live, retained, retransmitted or replayed, before and after restarts, has
topic, payload and properties of a PUBLISH that was accepted; what it publishes itself are
Wills and dead letters. -/
theorem intact_of_keepsPlain (cfg : HandlerConfig) (durable : Bool) (retry : RetryConfig)
    (eventLogMax now : Nat) (steps : List SystemStep) (t : System)
    (hrun : Machine.run (step cfg) (start durable retry eventLogMax now) steps = some t)
    (hplain : Machine.Meets (step cfg) KeepsPlain (start durable retry eventLogMax now) steps) :
    t.Intact := by
  have ht := carries_stemsFrom hrun (List.Subset.refl _) hplain
    (carries_start durable retry eventLogMax now)
  intro id session hsession packets hpackets p hp
  exact ((ht.hub.sessions id session hsession).channel packets hpackets p hp).sentFor

def comesBack : List SystemStep :=
  joins ++ listens ++
    [.receive 1 (.packet (.publish sample))] ++ acts 1 0 6 ++
    [.restart 100 ⟨5, 1, 1⟩ 0 0, .accept 1 "p",
      .receive 1 (.packet (.connect ⟨"c", false, 60, none⟩ none))] ++ acts 1 0 3

/-- A message that was queued before a restart is sent again after it. -/
theorem intact_of_keepsPlain_restarted :
    ∃ t ∈ Machine.run (step openConfig) (start true ⟨5, 1, 1⟩ 0 0) comesBack,
      (∃ session ∈ t.hub.sessions.byId.lookup 1, session.tx =
        some [.publish ⟨true, false, .atLeastOnce, "t", some 1, [1], .default⟩]) ∧ t.Intact := by
  have hrun : ∃ t ∈ Machine.run (step openConfig) (start true ⟨5, 1, 1⟩ 0 0) comesBack,
      ∃ session ∈ t.hub.sessions.byId.lookup 1, session.tx =
        some [.publish ⟨true, false, .atLeastOnce, "t", some 1, [1], .default⟩] := by
    decide +kernel
  obtain ⟨t, ht, hsent⟩ := hrun
  have hintact := intact_of_keepsPlain openConfig true ⟨5, 1, 1⟩ 0 0 _ t ht (by decide +kernel)
  exact ⟨t, ht, hsent, hintact⟩

def request : Publish :=
  { sample with properties := { PublishProperties.default with responseTopic := some "reply" } }

/-- The subscriber is not told where to reply. -/
theorem intact_fails_request :
    ∃ t ∈ Machine.run (step openConfig) (start true ⟨5, 1, 1⟩ 0 0)
      (joins ++ listens ++ [.receive 1 (.packet (.publish request))] ++ acts 1 0 6),
      ¬ t.Intact := by
  have hrun : ∃ t ∈ Machine.run (step openConfig) (start true ⟨5, 1, 1⟩ 0 0)
      (joins ++ listens ++ [.receive 1 (.packet (.publish request))] ++ acts 1 0 6),
      t.origins = [.publish request] ∧ ∃ session ∈ t.hub.sessions.byId.lookup 1,
        session.tx = some [.publish ⟨false, false, .atLeastOnce, "t", some 1, [1], .default⟩] := by
    decide +kernel
  obtain ⟨t, ht, horigins, session, hsession, htx⟩ := hrun
  refine ⟨t, ht, fun hintact => ?_⟩
  have hsent := hintact 1 session hsession _ htx _ (List.mem_singleton_self _)
  rw [horigins] at hsent
  rcases hsent with ⟨q, hq, hcopy⟩ | ⟨w, hw, -⟩ | ⟨client, o, ho, htopic, -⟩
  · cases List.mem_singleton.mp hq
    rcases hcopy.properties with hsame | ⟨offset, hreplayed⟩
    · exact absurd (congrArg PublishProperties.responseTopic hsame) (by decide)
    · exact absurd (congrArg PublishProperties.responseTopic hreplayed)
        (nofun : none ≠ some "reply")
  · cases List.mem_singleton.mp hw
  · have hdlq := isDlqTopic_dlqTopic client o.topic
    rw [← htopic] at hdlq
    exact absurd hdlq (by decide +kernel)

end System

end Relay
