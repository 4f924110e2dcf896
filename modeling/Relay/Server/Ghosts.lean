import Relay.Server.Startup
import Relay.Server.StepWrites

/-! # Ghost sessions

A session is online while it has a channel; the handler that reads the channel
knows it by handle and generation and gives it up when its loop ends. A second
CONNECT under another client identifier makes the handler forget the first session
without giving it up, and that session stays online for good. Without such CONNECTs
every online session belongs to an open connection, over any interleaving and any
number of restarts.
-/

namespace Relay

/-! ## Handles of connections -/

def Conn.handle (conn : Conn) : Option (ClientId × Nat) :=
  conn.sessionId.map fun id => (id, conn.generation)

namespace Broker

def handle (b : Broker) (c : Nat) : Option (ClientId × Nat) := (b.conns.lookup c).bind Conn.handle

theorem handle_insert (b : Broker) (h : Hub) (c : Nat) (conn : Conn) :
    handle { b with hub := h, conns := b.conns.insert c conn } =
      Function.update b.handle c conn.handle := by
  funext i
  simp only [handle, AssocMap.lookup_insert, Function.update_apply]
  split <;> rfl

theorem handle_erase (b : Broker) (h : Hub) (c : Nat) :
    handle { b with hub := h, conns := b.conns.erase c } = Function.update b.handle c none := by
  funext i
  simp only [handle, AssocMap.lookup_erase, Function.update_apply]
  split <;> rfl

/-- What a step does to holders and handles, given the CONNECT it accepts. -/
inductive Shift : Option (Nat × String) → Broker → Broker → Prop where
  | idle {b b' : Broker} (hub : Hub.Unmoved b.hub b'.hub) (handle : b'.handle = b.handle) :
      Shift none b b'
  | finished {b b' : Broker} (c : Nat) (id : ClientId) (generation : Nat)
      (had : b.handle c = some (id, generation)) (hub : b'.hub = b.hub.detach id generation)
      (handle : b'.handle = Function.update b.handle c none) : Shift none b b'
  | expired {b b' : Broker} (id : ClientId) (generation : Nat)
      (hub : b'.hub = (b.hub.expire id generation).2) (handle : b'.handle = b.handle) :
      Shift none b b'
  | connected {b b' : Broker} (c : Nat) (clientId : String) (expirySecs : Nat) (id : ClientId)
      (own : ∀ a, b.hub.sessions.holder id = some a → a.clientId = clientId)
      (holder : b'.hub.sessions.holder = Function.update
        (fun i => (b.hub.sessions.holder i).filter fun a => a.clientId ≠ clientId) id
        (some ⟨clientId, expirySecs, b.hub.sessions.generation + 1, true⟩))
      (generation : b'.hub.sessions.generation = b.hub.sessions.generation + 1)
      (handle : b'.handle =
        Function.update b.handle c (some (id, b.hub.sessions.generation + 1))) :
      Shift (some (c, clientId)) b b'

/-- A connection that ends detaches the session it regards as its own. -/
theorem shift_finish (b : Broker) {c : Nat} {conn conn' : Conn}
    (hconn : b.conns.lookup c = some conn) (hsame : conn'.handle = conn.handle) :
    Shift none b (b.finish c conn') := by
  have hhandle : b.handle c = conn'.handle := by
    rw [handle, hconn, Option.bind_some, hsame]
  cases hid : conn'.sessionId with
  | none =>
      have hnone : b.handle c = none := by
        rw [hhandle, Conn.handle, hid, Option.map_none]
      refine .idle ?_ ?_
      · simp only [finish, hid]
        exact ⟨rfl, rfl⟩
      · rw [finish, handle_erase, ← hnone, Function.update_eq_self]
  | some id =>
      refine .finished c id conn'.generation ?_ ?_ (b.handle_erase _ c)
      · rw [hhandle, Conn.handle, hid, Option.map_some]
      · simp only [finish, hid]

theorem unmoved_persistSubscription (h : Hub) (id : ClientId) (raw : String) (qos : QoS) :
    Hub.Unmoved h (h.persistSubscription id raw qos) := by
  unfold Hub.persistSubscription
  split <;> exact ⟨rfl, rfl⟩

theorem shift_subscribeOne (b : Broker) {c : Nat} {conn : Conn}
    (hconn : b.conns.lookup c = some conn) (id : ClientId) (raw : String) (qos : QoS) :
    Shift none b { b with
      hub := (conn.subscribeOne b.limit b.hub id raw qos).2.1
      conns := b.conns.insert c (conn.subscribeOne b.limit b.hub id raw qos).2.2 } := by
  have hhandle : b.handle c = conn.handle := by
    rw [handle, hconn, Option.bind_some]
  have hrouted (router : Router) : Hub.Unmoved b.hub
      (Hub.persistSubscription { b.hub with router := router } id raw (min qos maxQos)) := by
    have hrouter : Hub.Unmoved b.hub { b.hub with router := router } := ⟨rfl, rfl⟩
    exact hrouter.trans (unmoved_persistSubscription _ id raw _)
  have hboth : Hub.Unmoved b.hub (conn.subscribeOne b.limit b.hub id raw qos).2.1 ∧
      (conn.subscribeOne b.limit b.hub id raw qos).2.2.handle = conn.handle := by
    unfold Conn.subscribeOne
    dsimp only
    split
    · exact ⟨⟨rfl, rfl⟩, rfl⟩
    · split
      · exact ⟨hrouted _, rfl⟩
      · split
        · exact ⟨hrouted _, rfl⟩
        · exact ⟨⟨rfl, rfl⟩, rfl⟩
  refine .idle hboth.1 ?_
  rw [handle_insert, hboth.2, ← hhandle, Function.update_eq_self]

/-- A CONNECT attaches one session, and no other of its client is left. -/
theorem shift_connect {b : Broker} (hcons : b.hub.Consistent) {c : Nat} {packet : ConnectPacket}
    {acl : Acl} {now : Nat} {conn : Conn} {out : Connected × Hub}
    (hhub : b.hub.connect (packet.session conn.peer).1 (packet.session conn.peer).2
      packet.expirySecs now = some out) :
    Shift (some (c, (packet.session conn.peer).1)) b
      { b with
        hub := out.2
        conns := b.conns.insert c { conn with
          sessionId := some out.1.id
          generation := out.1.generation
          access := acl
          will := packet.will } } := by
  obtain ⟨hholder, hgen, hgeneration⟩ := hcons.holder_connect hhub
  refine .connected c _ packet.expirySecs out.1.id
    (fun a ha => hcons.holder_connect_own hhub ha) (hgen ▸ hholder) hgeneration ?_
  rw [handle_insert, ← hgen]
  rfl

/-- A step that ends a loop accepts no CONNECT. -/
theorem Leaves.accepted {b : Broker} {c : Nat} {conn : Conn} {st : BrokerStep}
    (hleaves : Leaves c conn st) : b.accepted? st = none := by
  cases hleaves with
  | @refused packet auth now hdenied =>
      cases hlookup : b.conns.lookup c with
      | none => simp [accepted?, hlookup]
      | some conn' =>
          cases auth with
          | none => simp [accepted?, hlookup]
          | some acl => simp [accepted?, hlookup, hdenied acl rfl]
  | _ => rfl

/-- Every step is one of the kinds, with the CONNECT that it accepts. -/
theorem step_shift {b b' : Broker} (hcons : b.hub.Consistent) {st : BrokerStep}
    (hstep : b.step st = some b') : Shift (b.accepted? st) b b' := by
  cases stepped_of_step hstep with
  | @accept c peer hfree =>
      have hnone : b.handle c = none := by
        rw [handle, AList.lookup_eq_none.mpr hfree, Option.bind_none]
      refine .idle ⟨rfl, rfl⟩ ?_
      rw [handle_insert, show (Conn.start peer).handle = b.handle c from hnone.symm,
        Function.update_eq_self]
  | connect hconn hallowed hhub =>
      rw [accepted_connect hconn hallowed]
      exact shift_connect hcons hhub
  | subscribe hconn _ => exact b.shift_subscribeOne hconn _ _ _
  | @unsubscribe c raw conn id hconn _ =>
      refine .idle ?_ ?_
      · simp only [Hub.unsubscribe, Hub.forgetSubscription]
        split <;> exact ⟨rfl, rfl⟩
      · rw [handle_insert]
        refine Function.update_eq_self_iff.mpr ?_
        rw [handle, hconn]
        rfl
  | finish access hconn hleaves =>
      rw [hleaves.accepted]
      exact b.shift_finish hconn rfl
  | @background a h hothers hact =>
      cases hmoves : a.moves with
      | false => exact .idle (Hub.unmoved_act hact hmoves) rfl
      | true =>
          -- of the sections that move a session only expiries run in the background
          cases a with
          | expire id generation =>
              cases hact
              exact .expired id generation rfl rfl
          | connect => cases hothers
          | detach => cases hothers
          | _ => cases hmoves

variable {b b' : Broker} {client : Option (Nat × String)}

/-- A connection whose handle a step changes was finished or accepted a CONNECT. -/
theorem Shift.handle_lost (hshift : Shift client b b') {c : Nat} {id : ClientId}
    {generation : Nat} (hc : b.handle c = some (id, generation)) :
    b'.handle c = some (id, generation) ∨
      (∀ a, b'.hub.sessions.holder id = some a → a.generation = generation → a.online = false) ∨
      ∃ clientId, client = some (c, clientId) := by
  cases hshift with
  | idle _ handle => exact Or.inl (handle ▸ hc)
  | finished c₁ id₁ generation₁ had hub handle =>
      by_cases heq : c = c₁
      · subst heq
        obtain ⟨rfl, rfl⟩ := Prod.mk.inj (Option.some.inj (hc.symm.trans had))
        refine Or.inr (Or.inl fun a ha hgen => ?_)
        rw [hub, Hub.holder_detach, Function.update_self] at ha
        obtain ⟨a₀, -, hleft⟩ := Option.bind_eq_some_iff.mp ha
        rw [(Holder.of_detached hleft).2] at hgen
        rw [Holder.detached, if_pos hgen] at hleft
        split at hleft
        · cases hleft
        · cases hleft
          rfl
      · rw [handle, Function.update_of_ne heq]
        exact Or.inl hc
  | expired _ _ _ handle => exact Or.inl (handle ▸ hc)
  | connected c₁ clientId _ _ _ _ _ handle =>
      by_cases heq : c = c₁
      · exact Or.inr (Or.inr ⟨clientId, by rw [heq]⟩)
      · rw [handle, Function.update_of_ne heq]
        exact Or.inl hc

/-- A handle is an old one, or the one of an accepted CONNECT with its session. -/
theorem Shift.handle_cases (hshift : Shift client b b') {c : Nat} {id : ClientId}
    {generation : Nat} (hc : b'.handle c = some (id, generation)) :
    b.handle c = some (id, generation) ∨
      generation = b.hub.sessions.generation + 1 ∧ ∃ clientId, client = some (c, clientId) ∧
        ∃ expirySecs, b'.hub.sessions.holder id = some ⟨clientId, expirySecs, generation, true⟩ := by
  cases hshift with
  | idle _ handle => exact Or.inl (handle ▸ hc)
  | finished c₁ _ _ _ _ handle =>
      rw [handle, Function.update_apply] at hc
      split at hc
      · cases hc
      · exact Or.inl hc
  | expired _ _ _ handle => exact Or.inl (handle ▸ hc)
  | connected c₁ clientId expirySecs id₁ _ holder _ handle =>
      rw [handle, Function.update_apply] at hc
      split at hc
      next heq =>
        cases hc
        refine Or.inr ⟨rfl, clientId, by rw [heq], expirySecs, ?_⟩
        rw [holder, Function.update_self]
      next => exact Or.inl hc

/-- A session is an old one, or one whose connection was finished, or one that a
CONNECT attached. -/
theorem Shift.holder_cases (hshift : Shift client b b') {id : ClientId} {a : Holder}
    (ha : b'.hub.sessions.holder id = some a) :
    b.hub.sessions.holder id = some a ∨
      (a.online = false ∧ 0 < a.expirySecs ∧
        ∃ c, b.handle c = some (id, a.generation) ∧ b'.handle c = none) ∨
      a.online = true ∧ ∃ c, b'.handle c = some (id, a.generation) := by
  cases hshift with
  | idle hub _ => exact Or.inl (hub.holder ▸ ha)
  | finished c id₁ generation had hub handle =>
      rw [hub, Hub.holder_detach, Function.update_apply] at ha
      split at ha
      next heq =>
        subst heq
        obtain ⟨a₀, ha₀, hleft⟩ := Option.bind_eq_some_iff.mp ha
        unfold Holder.detached at hleft
        split at hleft
        next hgen =>
          split at hleft
          · cases hleft
          next hexpiry =>
            cases hleft
            refine Or.inr (Or.inl ⟨rfl, Nat.pos_of_ne_zero hexpiry, c, hgen ▸ had, ?_⟩)
            rw [handle, Function.update_self]
        next =>
          cases hleft
          exact Or.inl ha₀
      next => exact Or.inl ha
  | expired id₁ generation hub _ =>
      rw [hub, Hub.holder_expire, Function.update_apply] at ha
      split at ha
      next heq =>
        subst heq
        obtain ⟨a₀, ha₀, hleft⟩ := Option.bind_eq_some_iff.mp ha
        rw [Holder.of_expired hleft]
        exact Or.inl ha₀
      next => exact Or.inl ha
  | connected c _ _ id₁ _ holder _ handle =>
      rw [holder, Function.update_apply] at ha
      split at ha
      next heq =>
        cases ha
        refine Or.inr (Or.inr ⟨rfl, c, ?_⟩)
        rw [handle, Function.update_self, heq]
      next => exact Or.inl (Option.filter_eq_some_iff.mp ha).1

/-- The session of a client that a CONNECT was accepted for belongs to the connection. -/
theorem Shift.own {c : Nat} {clientId : String} (hshift : Shift (some (c, clientId)) b b')
    {id : ClientId} {a : Holder} (ha : b'.hub.sessions.holder id = some a)
    (hclient : a.clientId = clientId) : b'.handle c = some (id, a.generation) := by
  cases hshift with
  | connected _ _ _ id₁ _ holder _ handle =>
      rw [holder, Function.update_apply] at ha
      split at ha
      next heq =>
        cases ha
        rw [handle, Function.update_self, heq]
      next =>
        obtain ⟨-, hne⟩ := Option.filter_eq_some_iff.mp ha
        simp [hclient] at hne

/-- A session of another client stays, and the connection forgets it. -/
theorem Shift.others {c : Nat} {clientId : String} (hshift : Shift (some (c, clientId)) b b')
    {id : ClientId} {a : Holder} (ha : b.hub.sessions.holder id = some a)
    (hclient : a.clientId ≠ clientId) :
    b'.hub.sessions.holder id = some a ∧ b'.handle c ≠ some (id, a.generation) := by
  cases hshift with
  | connected _ _ _ id₁ own holder _ handle =>
      have hne : id ≠ id₁ := by
        rintro rfl
        exact hclient (own a ha)
      constructor
      · rw [holder, Function.update_of_ne hne, ha]
        simp [hclient]
      · rw [handle, Function.update_self]
        intro heq
        exact hne (Prod.mk.inj (Option.some.inj heq)).1.symm

/-- Generations only grow, and every accepted CONNECT has one of its own. -/
theorem Shift.generation_le (hshift : Shift client b b') :
    b.hub.sessions.generation ≤ b'.hub.sessions.generation ∧
      (client ≠ none → b'.hub.sessions.generation = b.hub.sessions.generation + 1) := by
  cases hshift with
  | idle hub _ => exact ⟨hub.generation.ge, fun h => absurd rfl h⟩
  | finished _ _ _ _ hub _ =>
      rw [hub, Hub.generation_detach]
      exact ⟨le_rfl, fun h => absurd rfl h⟩
  | expired _ _ hub _ =>
      rw [hub, Hub.generation_expire]
      exact ⟨le_rfl, fun h => absurd rfl h⟩
  | connected _ _ _ _ _ _ generation _ => exact ⟨by omega, fun _ => generation⟩

/-! ## Orderly states -/

/-- What holds in every state, ghosts or not. -/
structure Orderly (b : Broker) : Prop where
  consistent : b.hub.Consistent
  bounded : ∀ c id generation, b.handle c = some (id, generation) →
    generation ≤ b.hub.sessions.generation
  /-- No two connections have a handle of the same generation. -/
  distinct : ∀ c c' id id' generation, b.handle c = some (id, generation) →
    b.handle c' = some (id', generation) → c = c'
  /-- A session is online while the connection of its generation is open. -/
  online : ∀ c id a, b.hub.sessions.holder id = some a →
    b.handle c = some (id, a.generation) → a.online = true
  /-- A session that went offline is one that outlives its connection. -/
  lasting : ∀ id a, b.hub.sessions.holder id = some a → a.online = false → 0 < a.expirySecs
  store : b.Lasting

/-- The generation of an accepted CONNECT is above all others, so that no two connections
come to share one. -/
theorem Orderly.shift (horderly : b.Orderly) (hcons : b'.hub.Consistent) (hstore : b'.Lasting)
    (hshift : Shift client b b') : b'.Orderly where
  consistent := hcons
  bounded c id generation hc := by
    obtain ⟨hle, hnext⟩ := hshift.generation_le
    rcases hshift.handle_cases hc with hold | ⟨rfl, clientId, rfl, -⟩
    · exact (horderly.bounded c id generation hold).trans hle
    · exact (hnext (Option.some_ne_none _)).ge
  distinct c c' id id' generation hc hc' := by
    -- the generation of an accepted CONNECT is above all others
    rcases hshift.handle_cases hc with hold | ⟨hgen, clientId, hclient, -⟩
    · have hle := horderly.bounded c id generation hold
      rcases hshift.handle_cases hc' with hold' | ⟨hgen', -⟩
      · exact horderly.distinct c c' id id' generation hold hold'
      · omega
    · rcases hshift.handle_cases hc' with hold' | ⟨-, clientId', hclient', -⟩
      · have hle := horderly.bounded c' id' generation hold'
        omega
      · exact (Prod.mk.inj (Option.some.inj (hclient.symm.trans hclient'))).1
  online c id a ha hc := by
    rcases hshift.handle_cases hc with hold | ⟨-, clientId, -, expirySecs, hnew⟩
    · rcases hshift.holder_cases ha with hkept | ⟨-, -, c₁, hc₁, hnone⟩ | ⟨honline, -⟩
      · exact horderly.online c id a hkept hold
      · rw [horderly.distinct c c₁ id id a.generation hold hc₁, hnone] at hc
        cases hc
      · exact honline
    · rw [ha, Option.some_inj] at hnew
      rw [hnew]
  lasting id a ha hoffline := by
    rcases hshift.holder_cases ha with hkept | ⟨-, hpos, -⟩ | ⟨honline, -⟩
    · exact horderly.lasting id a hkept hoffline
    · exact hpos
    · rw [honline] at hoffline
      cases hoffline
  store := hstore

/-- Every online session is attached to an open connection. -/
def Attached (b : Broker) : Prop :=
  ∀ id a, b.hub.sessions.holder id = some a → a.online = true →
    ∃ c, b.handle c = some (id, a.generation)

/-- A connection that accepts a CONNECT has no session of another client. -/
def Keeps (client : Option (Nat × String)) (b : Broker) : Prop :=
  ∀ accepted ∈ client, ∀ handle ∈ b.handle accepted.1,
    ∀ s ∈ b.hub.sessions.byId.lookup handle.1, s.generation = handle.2 → s.clientId = accepted.2

/-- Only a CONNECT that takes a connection away from another client can leave a session
behind. -/
theorem Attached.shift (hattached : b.Attached) (hshift : Shift client b b')
    (hkeeps : b.Keeps client) : b'.Attached := by
  intro id a ha honline
  rcases hshift.holder_cases ha with hkept | ⟨hoffline, -⟩ | ⟨-, hnew⟩
  · obtain ⟨c, hc⟩ := hattached id a hkept honline
    rcases hshift.handle_lost hc with hsame | hgone | ⟨clientId, rfl⟩
    · exact ⟨c, hsame⟩
    · rw [hgone a ha rfl] at honline
      cases honline
    · -- the session is that of the CONNECT's own client
      obtain ⟨s, hs, rfl⟩ := Option.map_eq_some_iff.mp hkept
      exact ⟨c, hshift.own ha (hkeeps _ rfl _ hc s hs rfl)⟩
  · rw [hoffline] at honline
    cases honline
  · exact hnew

/-- Otherwise the forgotten session is online without a connection. -/
theorem Attached.keeps (hattached : b'.Attached) (horderly : b.Orderly)
    (hshift : Shift client b b') : b.Keeps client := by
  rintro ⟨c, clientId⟩ hclient ⟨id, generation⟩ hhandle s hs hgen
  cases hclient
  subst hgen
  by_contra hne
  have hholder : b.hub.sessions.holder id = some s.holder := congrArg (Option.map _) hs
  obtain ⟨hkept, hlost⟩ := hshift.others hholder hne
  have honline := horderly.online c id s.holder hholder hhandle
  obtain ⟨c', hc'⟩ := hattached id s.holder hkept honline
  rcases hshift.handle_cases hc' with hold | ⟨-, clientId', hclient', -⟩
  · rw [horderly.distinct c' c id id _ hold hhandle] at hc'
    exact hlost hc'
  · rw [(Prod.mk.inj (Option.some.inj hclient')).1] at hlost
    exact hlost hc'

/-! ## Runs -/

/-- Every online session is the current one of an open connection, and once all
connections are closed no session is online and none with interval 0 is left. -/
structure NoGhosts (b : Broker) : Prop where
  attached : ∀ id s, b.hub.sessions.byId.lookup id = some s → s.tx ≠ none →
    ∃ c conn, b.conns.lookup c = some conn ∧ conn.sessionId = some id ∧
      conn.generation = s.generation
  closed : (∀ c, b.conns.lookup c = none) → ∀ id s, b.hub.sessions.byId.lookup id = some s →
    s.tx = none ∧ s.expirySecs ≠ 0

theorem handle_eq_some_iff {c : Nat} {id : ClientId} {generation : Nat} :
    b.handle c = some (id, generation) ↔ ∃ conn, b.conns.lookup c = some conn ∧
      conn.sessionId = some id ∧ conn.generation = generation := by
  simp [handle, Conn.handle, Option.bind_eq_some_iff]

/-- In an orderly broker ghosts are exactly the sessions that are not attached. -/
theorem Orderly.noGhosts_iff (horderly : b.Orderly) : b.NoGhosts ↔ b.Attached := by
  constructor
  · intro hghosts id a ha honline
    obtain ⟨s, hs, rfl⟩ := Option.map_eq_some_iff.mp ha
    have htx : s.tx ≠ none := Option.isSome_iff_ne_none.mp honline
    obtain ⟨c, hc⟩ := hghosts.attached id s hs htx
    exact ⟨c, handle_eq_some_iff.mpr hc⟩
  · intro hattached
    have hattached' : ∀ id s, b.hub.sessions.byId.lookup id = some s → s.tx ≠ none →
        ∃ c conn, b.conns.lookup c = some conn ∧ conn.sessionId = some id ∧
          conn.generation = s.generation := by
      intro id s hs htx
      obtain ⟨c, hc⟩ := hattached id s.holder (congrArg (Option.map _) hs)
        (Option.isSome_iff_ne_none.mpr htx)
      exact ⟨c, handle_eq_some_iff.mp hc⟩
    refine ⟨hattached', fun hclosed id s hs => ?_⟩
    have htx : s.tx = none := by
      by_contra htx
      obtain ⟨c, conn, hconn, -⟩ := hattached' id s hs htx
      rw [hclosed c] at hconn
      cases hconn
    have hoffline : s.holder.online = false := by
      rw [Session.holder, htx]
      rfl
    exact ⟨htx, (horderly.lasting id s.holder (congrArg (Option.map _) hs) hoffline).ne'⟩

/-- A CONNECT that a connection accepts while it still holds a session is for the
client of that session. -/
def KeepsClient (b : Broker) : LifeStep → Prop
  | .step st => b.Keeps (b.accepted? st)
  | .restart .. => True

def fresh (persistent : Bool) (retry : RetryConfig) (eventLogMax limit now : Nat) : Broker :=
  new (if persistent then some Storage.empty else none) retry eventLogMax limit now

/-- Loaded sessions are offline, so none of them needs a connection. -/
theorem started_new {storage : Option Storage} (hstorage : ∀ st ∈ storage, st.Lasting)
    (retry : RetryConfig) (eventLogMax limit now : Nat) :
    (new storage retry eventLogMax limit now).Orderly ∧
      (new storage retry eventLogMax limit now).Attached := by
  have hhandle : ∀ c, (new storage retry eventLogMax limit now).handle c = none := fun c => rfl
  have hloaded : ∀ id a, (new storage retry eventLogMax limit now).hub.sessions.holder id =
      some a → a.online = false ∧ 0 < a.expirySecs := by
    intro id a ha
    cases storage with
    | none => cases ha
    | some st =>
        have hslot := (Hub.holder_new st retry eventLogMax now id).symm.trans ha
        obtain ⟨ps, hps, rfl⟩ := Option.map_eq_some_iff.mp hslot
        have hrow := Storage.sessions_of_mem (Hub.mem_of_slot hps)
        exact ⟨rfl, hstorage st rfl ps.clientId ps.expirySecs hrow⟩
  constructor
  · refine ⟨Hub.consistent_new storage retry eventLogMax now, ?_, ?_, ?_, ?_, ?_⟩
    · intro c id generation hc
      rw [hhandle] at hc
      cases hc
    · intro c c' id id' generation hc
      rw [hhandle] at hc
      cases hc
    · intro c id a _ hc
      rw [hhandle] at hc
      cases hc
    · exact fun id a ha _ => (hloaded id a ha).2
    · intro d hd n
      obtain ⟨st, hst, rfl⟩ := Option.map_eq_some_iff.mp hd
      rw [Disk.crashed, List.take_nil]
      exact hstorage st hst
  · intro id a ha honline
    rw [(hloaded id a ha).1] at honline
    cases honline

/-- The step lemma: a step keeps the state orderly, and free of ghosts exactly if it
meets the condition. -/
theorem Orderly.live (horderly : b.Orderly) {st : LifeStep} (hlive : b.live st = some b') :
    b'.Orderly ∧ (b.Attached → (b.KeepsClient st ↔ b'.Attached)) := by
  cases st with
  | restart applied retry eventLogMax now =>
      cases hlive
      have hstorage : ∀ st ∈ b.hub.disk.map (·.crashed applied), st.Lasting := by
        intro st hst
        obtain ⟨d, hd, rfl⟩ := Option.map_eq_some_iff.mp hst
        exact horderly.store d hd applied
      obtain ⟨horderly', hattached'⟩ := started_new hstorage retry eventLogMax b.limit now
      exact ⟨horderly', fun _ => ⟨fun _ => hattached', fun _ => trivial⟩⟩
  | step st =>
      simp only [Broker.live] at hlive
      split at hlive
      next hwrite =>
        have hshift := step_shift horderly.consistent hlive
        have hcons := horderly.consistent.effect (step_effect hlive)
        refine ⟨horderly.shift hcons (horderly.store.step hwrite hlive) hshift, fun hattached => ?_⟩
        exact ⟨fun hkeeps => hattached.shift hshift hkeeps,
          fun hattached' => hattached'.keeps horderly hshift⟩
      · cases hlive

/-- An accepted CONNECT does not fail in the hub. -/
theorem Orderly.keepsClient (horderly : b.Orderly) {st : LifeStep}
    (hnone : b.live st = none) : b.KeepsClient st := by
  cases st with
  | restart => trivial
  | step st =>
      rintro ⟨c, clientId⟩ haccepted
      cases st with
      | connect c₁ packet auth now =>
          obtain ⟨conn, hconn, hrest⟩ := Option.bind_eq_some_iff.mp haccepted
          obtain ⟨acl, rfl, hif⟩ := Option.bind_eq_some_iff.mp hrest
          split at hif
          next hwill =>
            obtain ⟨connected, h, hconnect, -⟩ := horderly.consistent.tableSound.connect
              (packet.session conn.peer).1 (packet.session conn.peer).2 packet.expirySecs now
            have hwrite : ∀ op ∈ (BrokerStep.connect c₁ packet (some acl) now).write?,
                op.Aside := fun _ hop => nomatch hop
            rw [Broker.live, if_pos hwrite] at hnone
            simp [step, handleConnect, hconn, hwill, hconnect] at hnone
          next => cases hif
      | _ => cases haccepted

/-- From a first start on, over any interleaving and any restarts: there is never a
ghost exactly if every CONNECT meets the condition. -/
theorem noGhosts_iff_keepsClient (persistent : Bool) (retry : RetryConfig)
    (eventLogMax limit now : Nat) (steps : List LifeStep) :
    Machine.Always live NoGhosts (fresh persistent retry eventLogMax limit now) steps ↔
      Machine.Meets live KeepsClient (fresh persistent retry eventLogMax limit now) steps := by
  have hstorage : ∀ st ∈ if persistent then some Storage.empty else none, st.Lasting := by
    intro st hst
    split at hst
    · cases hst
      intro clientId secs hsecs
      rw [Option.mem_def, Storage.empty, Std.TreeMap.getElem?_emptyc] at hsecs
      cases hsecs
    · cases hst
  obtain ⟨horderly, hattached⟩ := started_new hstorage retry eventLogMax limit now
  refine Machine.always_iff_meets Orderly ?_ ?_ steps horderly (horderly.noGhosts_iff.mpr hattached)
  · exact fun b st b' horderly hlive => (horderly.live hlive).1
  · intro b st horderly hghosts
    have hattached := horderly.noGhosts_iff.mp hghosts
    constructor
    · intro hkeeps b' hlive
      obtain ⟨horderly', hiff⟩ := horderly.live hlive
      exact horderly'.noGhosts_iff.mpr ((hiff hattached).mp hkeeps)
    · intro hall
      cases hlive : b.live st with
      | none => exact horderly.keepsClient hlive
      | some b' =>
          obtain ⟨horderly', hiff⟩ := horderly.live hlive
          exact (hiff hattached).mpr (horderly'.noGhosts_iff.mp (hall b' hlive))

def twoClients : List LifeStep :=
  [.step (.accept 0 "p"), .step (.connect 0 ⟨"a", true, 0, none⟩ (some Acl.default) 0),
    .step (.connect 0 ⟨"b", true, 0, none⟩ (some Acl.default) 0), .step (.close 0)]

/-- The first session is online though no connection is open. -/
theorem noGhosts_lost_by_second_connect :
    ∃ b, Machine.run live (fresh false ⟨5, 5, 60⟩ 0 50 0) twoClients = some b ∧
      (∀ c, b.conns.lookup c = none) ∧
      (∃ s ∈ b.hub.sessions.byId.lookup 1, s.tx.isSome ∧ s.expirySecs = 0) ∧ ¬ b.NoGhosts := by
  have hsome : (Machine.run live (fresh false ⟨5, 5, 60⟩ 0 50 0) twoClients).isSome := by
    decide +kernel
  obtain ⟨b, hb⟩ := Option.isSome_iff_exists.mp hsome
  have hkeys : ∀ b ∈ Machine.run live (fresh false ⟨5, 5, 60⟩ 0 50 0) twoClients,
      b.conns.keys = [] := by
    decide +kernel
  have hghost : ∀ b ∈ Machine.run live (fresh false ⟨5, 5, 60⟩ 0 50 0) twoClients,
      ∃ s ∈ b.hub.sessions.byId.lookup 1, s.tx.isSome ∧ s.expirySecs = 0 := by
    decide +kernel
  have hclosed : ∀ c, b.conns.lookup c = none := by
    intro c
    rw [AList.lookup_eq_none]
    intro hmem
    have hkey : c ∈ b.conns.keys := hmem
    rw [hkeys b hb] at hkey
    cases hkey
  refine ⟨b, hb, hclosed, hghost b hb, fun hghosts => ?_⟩
  obtain ⟨s, hs, honline, -⟩ := hghost b hb
  rw [(hghosts.closed hclosed 1 s hs).1] at honline
  cases honline

end Broker

end Relay
