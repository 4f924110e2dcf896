import Relay.Server.Coverage

/-! # Clean starts

A clean start gives a client a session without a past: nothing in flight, nothing
seen, a handle that nobody subscribed with, and in the store no row but the one of
the new session. A client without a session is entered without removing anything
from the store first, so this rests on an invariant of all operations, run one at a
time: rows in the store belong to clients that have a session row, and session rows
to clients that have a session, whenever a crash comes.
-/

namespace Relay

/-! ## Rows with an owner -/

namespace Storage

/-- A client without a session row has no rows at all, and session rows have clean
identifiers. -/
structure Owned (st : Storage) : Prop where
  clean : ∀ client, (st.record client).expiry ≠ none → CleanId client
  owner : ∀ client, CleanId client → (st.record client).expiry = none → st.record client = .empty

/-- An empty store has no rows at all. -/
theorem owned_empty : empty.Owned where
  clean client hrow := by
    refine absurd ?_ hrow
    exact Std.TreeMap.getElem?_emptyc
  owner client _ _ := by
    ext1
    · exact Std.TreeMap.getElem?_emptyc
    · funext raw
      exact Std.TreeMap.getElem?_emptyc
    · exact Std.TreeMap.getElem?_emptyc

/-- A write puts subscription and in-flight rows only of clients with a session row,
and names clean clients. -/
def Takes (st : Storage) : PersistOp → Prop
  | .putSession c _ => CleanId c
  | .removeSession c => CleanId c
  | .putSubscription c _ _ => CleanId c ∧ (st.record c).expiry ≠ none
  | .removeSubscription c _ => CleanId c
  | .putInflight c _ => (st.record c).expiry ≠ none
  | _ => True

theorem Takes.clean {st : Storage} {op : PersistOp} (htakes : st.Takes op) : op.Clean := by
  cases op with
  | removeSession c => exact htakes
  | putSubscription c raw qos => exact htakes.1
  | removeSubscription c raw => exact htakes
  | _ => trivial

/-- What a write that the store takes does to a record without a session row. -/
theorem Takes.onRecord_empty {st : Storage} {op : PersistOp} (htakes : st.Takes op)
    {client : String} (hempty : st.record client = .empty)
    (hexpiry : (op.onRecord client .empty).expiry = none) :
    op.onRecord client .empty = .empty := by
  have hnot : ∀ c, (st.record c).expiry ≠ none → c ≠ client := by
    rintro c hc rfl
    rw [hempty] at hc
    exact hc rfl
  cases op with
  | putSession c secs =>
      have hne : c ≠ client := by
        rintro rfl
        simp [PersistOp.onRecord, PersistOp.expiryRow] at hexpiry
      have habout : (PersistOp.putSession c secs).About c := rfl
      exact PersistOp.onRecord_of_ne habout hne.symm _
  | removeSession c =>
      by_cases hc : c = client
      · rw [hc]
        exact PersistOp.onRecord_removeSession client _
      · have habout : (PersistOp.removeSession c).About c := rfl
        exact PersistOp.onRecord_of_ne habout (Ne.symm hc) _
  | putSubscription c raw qos =>
      have habout : (PersistOp.putSubscription c raw qos).About c := rfl
      exact PersistOp.onRecord_of_ne habout (hnot c htakes.2).symm _
  | removeSubscription c raw =>
      ext1
      · rfl
      · funext raw'
        simp [PersistOp.onRecord, PersistOp.subscriptionRow, ClientRecord.empty]
      · rfl
  | putInflight c blob =>
      ext1
      · rfl
      · rfl
      · simp [PersistOp.onRecord, PersistOp.inflightRow, ClientRecord.empty, hnot c htakes]
  | putRetained topic payload qos => rfl
  | appendDeadLetter blob => rfl
  | appendEvent blob retention => rfl
  | flush ack => rfl

/-- A write of that kind leaves no row without its session. -/
theorem Owned.apply {st : Storage} (hst : st.Owned) {op : PersistOp} (htakes : st.Takes op) :
    (st.applyPersistOp op).Owned where
  clean client hrow := by
    have hexpiry : (st.applyPersistOp op).sessions[client]? = _ := st.sessions_applyPersistOp op client
    by_cases hold : (st.record client).expiry = none
    · -- a session row that is new was put by this write
      cases op with
      | putSession c secs =>
          by_cases hc : c = client
          · exact hc ▸ htakes
          · refine absurd ?_ hrow
            refine hexpiry.trans ?_
            rw [PersistOp.expiryRow, if_neg hc]
            exact hold
      | removeSession c =>
          refine absurd ?_ hrow
          refine hexpiry.trans ?_
          simp only [PersistOp.expiryRow]
          split
          · rfl
          · exact hold
      | _ => exact absurd (hexpiry.trans hold) hrow
    · exact hst.clean client hold
  owner client hclient hexpiry := by
    rw [record_applyPersistOp st htakes.clean hclient] at hexpiry ⊢
    by_cases hold : (st.record client).expiry = none
    · have hempty := hst.owner client hclient hold
      rw [hempty] at hexpiry ⊢
      exact htakes.onRecord_empty hempty hexpiry
    · -- only the removal of the session takes its row away
      cases op with
      | putSession c secs =>
          simp only [PersistOp.onRecord, PersistOp.expiryRow] at hexpiry
          split at hexpiry
          · cases hexpiry
          · exact absurd hexpiry hold
      | removeSession c =>
          simp only [PersistOp.onRecord, PersistOp.expiryRow] at hexpiry
          split at hexpiry
          next hc =>
            rw [hc]
            exact PersistOp.onRecord_removeSession client _
          · exact absurd hexpiry hold
      | _ => exact absurd hexpiry hold

end Storage

/-! ## The invariant between operations -/

namespace Hub

structure Tidy (h : Hub) : Prop where
  disk : h.disk.isSome
  consistent : h.Consistent
  /-- Subscriptions were made with handles given out before. -/
  handles : ∀ key, h.router.granted key ≠ none → key.client < h.nextId
  clean : ∀ id client secs, h.sessions.lease id = some (client, secs) → CleanId client
  /-- A durable session has its row. -/
  marked : ∀ id client secs, h.sessions.lease id = some (client, secs) → 0 < secs →
    (h.record client).expiry ≠ none
  /-- A session row is that of a session. -/
  leased : ∀ client, CleanId client → (h.record client).expiry ≠ none →
    ∃ id secs, h.sessions.lease id = some (client, secs)
  owned : ∀ d ∈ h.disk, d.EachCrash Storage.Owned

section Changes

variable {h h' : Hub}

/-- A change that leaves leases and expiry rows alone keeps the hub tidy. -/
theorem Tidy.same (ht : h.Tidy) (hdisk : h'.disk.isSome) (hcons : h'.Consistent)
    (hhandles : ∀ key, h'.router.granted key ≠ none → key.client < h'.nextId)
    (hlease : h'.sessions.lease = h.sessions.lease)
    (hexpiry : ∀ client, CleanId client →
      (h'.record client).expiry = (h.record client).expiry)
    (howned : ∀ d ∈ h'.disk, d.EachCrash Storage.Owned) : h'.Tidy where
  disk := hdisk
  consistent := hcons
  handles := hhandles
  clean := by
    rw [hlease]
    exact ht.clean
  marked id client secs hid hpos := by
    rw [hlease] at hid
    rw [hexpiry client (ht.clean id client secs hid)]
    exact ht.marked id client secs hid hpos
  leased client hclient hrow := by
    rw [hexpiry client hclient] at hrow
    rw [hlease]
    exact ht.leased client hclient hrow
  owned := howned

theorem lease_of_still (hstill : Still h h') : h'.sessions.lease = h.sessions.lease := by
  funext id
  rw [SessionTable.lease, hstill.holder, SessionTable.lease]

/-- A change that the sessions' leases, the handles and the store do not show. -/
theorem Tidy.still (ht : h.Tidy) (hstill : Still h h') (hdisk : h'.disk = h.disk) : h'.Tidy := by
  refine ht.same (hdisk ▸ ht.disk) (ht.consistent.effect hstill.quiet.effect) ?_
    (lease_of_still hstill) (fun client _ => by rw [record_congr hdisk]) (hdisk ▸ ht.owned)
  rw [hstill.router, hstill.nextId]
  exact ht.handles

/-- A write that the drained store would take is safe at every crash point. -/
theorem owned_enqueue (howned : ∀ d ∈ h.disk, d.EachCrash Storage.Owned) {op : PersistOp}
    (htakes : ∀ d ∈ h.disk, d.settled.Takes op) :
    ∀ d ∈ (h.enqueue op).disk, d.EachCrash Storage.Owned := by
  intro d' hd'
  obtain ⟨d, hd, rfl⟩ := Option.map_eq_some_iff.mp hd'
  exact (howned d hd).enqueue ((howned d hd).settled.apply (htakes d hd))

/-- A write that changes no session row. -/
theorem Tidy.enqueue (ht : h.Tidy) {op : PersistOp} (htakes : ∀ d ∈ h.disk, d.settled.Takes op)
    (hexpiry : ∀ client row, op.expiryRow client row = row) : (h.enqueue op).Tidy := by
  obtain ⟨d, hd⟩ := Option.isSome_iff_exists.mp ht.disk
  refine ht.same ?_ (ht.consistent.effect (quiet_enqueue h op).effect) ht.handles rfl ?_
    (owned_enqueue ht.owned htakes)
  · rw [isSome_disk_enqueue]
    exact ht.disk
  · intro client hclient
    rw [record_enqueue ht.disk (htakes d hd).clean hclient]
    exact hexpiry client _

/-- A client with a durable session has a session row in the store to come. -/
theorem Tidy.expiry_settled (ht : h.Tidy) {id : ClientId} {client : String} {secs : Nat}
    (hid : h.sessions.lease id = some (client, secs)) (hpos : 0 < secs) :
    ∀ d ∈ h.disk, (d.settled.record client).expiry ≠ none := by
  intro d hd
  have hrow := ht.marked id client secs hid hpos
  rwa [record, Option.mem_def.mp hd] at hrow

/-- Snapshots of durable sessions. -/
theorem Tidy.writeAll (ht : h.Tidy) {snapshots : List (String × Bytes)}
    (hall : ∀ snapshot ∈ snapshots, ∃ id secs,
      h.sessions.lease id = some (snapshot.1, secs) ∧ 0 < secs) : (h.writeAll snapshots).Tidy := by
  induction snapshots generalizing h with
  | nil => exact ht
  | cons snapshot rest ih =>
      rw [List.forall_mem_cons] at hall
      obtain ⟨⟨id, secs, hid, hpos⟩, hrest⟩ := hall
      have hwrite : (h.writeInflight snapshot).Tidy :=
        ht.enqueue (ht.expiry_settled hid hpos) fun _ _ => rfl
      exact ih hwrite hrest

theorem Tidy.announce (ht : h.Tidy) (topic : String) (payload : Bytes) (qos : QoS) (retain : Bool)
    (ts : Nat) : (h.announce topic payload qos retain ts).Tidy := by
  have hkept : (if retain then h.retain topic payload qos else h).Tidy := by
    split
    · have hsame : ({ h with retained := h.retained.apply ⟨topic, payload, qos, true⟩ } : Hub).Tidy :=
        ht.still ⟨rfl, rfl, rfl, rfl, rfl⟩ rfl
      refine hsame.enqueue ?_ ?_
      · exact fun _ _ => trivial
      · exact fun _ _ => rfl
    · exact ht
  rw [Hub.announce]
  generalize (if retain then h.retain topic payload qos else h) = kept at hkept ⊢
  unfold journal
  split
  · refine hkept.enqueue ?_ ?_
    · exact fun _ _ => trivial
    · exact fun _ _ => rfl
  · exact hkept

theorem Tidy.routeTopic (ht : h.Tidy) (topic : String) : (h.routeTopic topic).2.Tidy := by
  refine ht.same ht.disk ht.consistent ?_ rfl (fun _ _ => rfl) ht.owned
  intro key hkey
  rw [Hub.routeTopic, Router.granted_route] at hkey
  exact ht.handles key hkey

/-- The locked part of an operation on in-flight queues. -/
theorem Tidy.locked (ht : h.Tidy) {op : InflightOp} {snapshots : List (String × Bytes)}
    (hlocked : h.locked op = some (snapshots, h')) : h'.Tidy := by
  cases op with
  | publish topic payload msgQos retain clock =>
      obtain ⟨f, hf, heq⟩ := Option.map_eq_some_iff.mp hlocked
      cases heq
      exact ((ht.announce topic payload msgQos retain clock.ts).routeTopic topic).still
        (still_deliverAll hf) (disk_deliverAll hf).1
  | deliverRetained id filter granted now =>
      simp only [Hub.locked] at hlocked
      split at hlocked
      · cases hlocked
        exact ht
      · obtain ⟨⟨snapshot, h''⟩, hreplay, heq⟩ := Option.map_eq_some_iff.mp hlocked
        cases heq
        exact ht.still (still_replayRetained hreplay) (queuesAll_replayRetained hreplay).disk_eq
  | acknowledge id ack =>
      cases hlocked
      exact ht.still (still_acknowledge h id ack) (queuesAll_acknowledge h id ack).disk_eq
  | runRetries now =>
      cases hlocked
      exact ht.still (still_tickAll h now) rfl

/-- An operation on in-flight queues with its writes. -/
theorem Tidy.written (ht : h.Tidy) {op : InflightOp} {snapshots : List (String × Bytes)}
    (hlocked : h.locked op = some (snapshots, h')) : (h'.writeAll snapshots).Tidy := by
  refine (ht.locked hlocked).writeAll fun snapshot hsnapshot => ?_
  obtain ⟨hsnap, -, -⟩ := snapshots_locked ht.disk hlocked
  cases hlatest : latest snapshot.1 snapshots with
  | none => exact absurd hsnapshot (not_mem_of_latest_eq_none hlatest snapshot.2)
  | some blob =>
      obtain ⟨id, s, hs, hclient, hpos, -⟩ := hsnap.taken snapshot.1 blob hlatest
      refine ⟨id, s.expirySecs, ?_, hpos⟩
      rw [SessionTable.lease, SessionTable.holder, hs, ← hclient]
      rfl

/-- Publishing writes only snapshots of durable sessions, events and retained rows. -/
theorem Tidy.publish (ht : h.Tidy) {topic : String} {payload : Bytes} {msgQos : QoS}
    {retain : Bool} {clock : Clock} {n : Nat}
    (hpublish : h.publish topic payload msgQos retain clock = some (n, h')) : h'.Tidy := by
  have hlocked := publish_eq_locked h topic payload msgQos retain clock
  rw [hpublish, Option.map_some, eq_comm, Option.map_eq_some_iff] at hlocked
  obtain ⟨⟨snapshots, h₁⟩, hlocked, rfl⟩ := hlocked
  exact ht.written hlocked

theorem Tidy.deadLetter (ht : h.Tidy) {clientId reason : String} {msg : DeadMsg} {clock : Clock}
    (hdead : h.deadLetter clientId msg reason clock = some h') : h'.Tidy := by
  unfold Hub.deadLetter at hdead
  split at hdead
  · cases hdead
    exact ht
  · obtain ⟨⟨n, h''⟩, hpublish, rfl⟩ := Option.map_eq_some_iff.mp hdead
    refine Tidy.publish (ht.enqueue ?_ ?_) hpublish
    · exact fun _ _ => trivial
    · exact fun _ _ => rfl

theorem Tidy.deadLetterAll (ht : h.Tidy) {reason : String} {dead : List (String × DeadMsg)}
    {clock : Nat → Clock} (hdead : h.deadLetterAll reason dead clock = some h') : h'.Tidy := by
  induction dead generalizing h clock with
  | nil =>
      cases hdead
      exact ht
  | cons msg rest ih =>
      obtain ⟨h'', hfirst, hrest⟩ := Option.bind_eq_some_iff.mp hdead
      exact ih (ht.deadLetter hfirst) hrest

theorem Tidy.runRetries (ht : h.Tidy) {clock : Nat → Clock}
    (hretries : h.runRetries clock = some h') : h'.Tidy := by
  rw [runRetries_eq_locked] at hretries
  obtain ⟨⟨snapshots, h₁⟩, hlocked, hdead⟩ := Option.bind_eq_some_iff.mp hretries
  exact (ht.written hlocked).deadLetterAll hdead

theorem Tidy.work (ht : h.Tidy) (hwork : h.work = some h') : h'.Tidy := by
  have hrecord := record_work hwork
  obtain ⟨d, d', hd, hround, rfl⟩ := exists_of_work hwork
  refine ht.same rfl ht.consistent ht.handles rfl (fun client _ => by rw [hrecord]) ?_
  rintro _ ⟨⟩
  exact (ht.owned d hd).work hround

/-! ## Sessions and subscriptions of one client -/

/-- A subscription row is written only for a session that has its own row. -/
theorem Tidy.edit (ht : h.Tidy) {id : ClientId} {raw : String} {key : Option String × String}
    {value : Option QoS} (hedit : Edit h h' id raw key value)
    (hid : value ≠ none → id < h.nextId) : h'.Tidy := by
  have hcons : h'.Consistent := by
    unfold Consistent
    rw [hedit.sessions, hedit.nextId]
    exact ht.consistent
  have hhandles : ∀ k, h'.router.granted k ≠ none → k.client < h'.nextId := by
    intro k hk
    rw [hedit.granted, Function.update_apply] at hk
    rw [hedit.nextId]
    split at hk
    next heq =>
      rw [heq]
      exact hid hk
    · exact ht.handles k hk
  have hlease : h'.sessions.lease = h.sessions.lease := by rw [hedit.sessions]
  have hdisk := hedit.disk
  cases hdurable : h.durableClient id with
  | none =>
      rw [hdurable] at hdisk
      exact ht.same (hdisk ▸ ht.disk) hcons hhandles hlease
        (fun client _ => by rw [record_congr hdisk]) (hdisk ▸ ht.owned)
  | some client =>
      -- the row of a subscription joins the one of its durable session
      rw [hdurable] at hdisk
      obtain ⟨secs, hlive, hpos⟩ := durableClient_iff.mp hdurable
      have hclient := ht.clean id client secs hlive
      have hwrite : (h.enqueue (.subscription client raw value)).Tidy := by
        cases value with
        | some qos =>
            exact ht.enqueue (fun d hd => ⟨hclient, ht.expiry_settled hlive hpos d hd⟩)
              fun _ _ => rfl
        | none => exact ht.enqueue (fun _ _ => hclient) fun _ _ => rfl
      exact hwrite.same (hdisk ▸ hwrite.disk) hcons hhandles hlease
        (fun c _ => by rw [record_congr hdisk]) (hdisk ▸ hwrite.owned)

theorem Tidy.subscribeRaw (ht : h.Tidy) {id : ClientId} (hid : id < h.nextId) (raw : String)
    (qos : QoS) : (h.subscribeRaw id raw qos).Tidy := by
  cases hkey : routeKey raw with
  | some key => exact ht.edit (edit_subscribeRaw h id qos hkey) fun _ => hid
  | none =>
      rw [subscribeRaw_of_none h id qos hkey]
      exact ht

theorem Tidy.unsubscribe (ht : h.Tidy) (id : ClientId) (raw : String) :
    (h.unsubscribe id raw).2.Tidy := by
  obtain ⟨key, hedit⟩ := edit_unsubscribe h id raw
  exact ht.edit hedit fun hne => absurd rfl hne

/-- A change that concerns one client. -/
theorem Tidy.update (ht : h.Tidy) {client : String} (hclient : CleanId client)
    (hdisk : h'.disk.isSome) (hcons : h'.Consistent)
    (hhandles : ∀ key, h'.router.granted key ≠ none → key.client < h'.nextId)
    (hothers : ∀ id c secs, c ≠ client →
      (h'.sessions.lease id = some (c, secs) ↔ h.sessions.lease id = some (c, secs)))
    (hexpiry : ∀ c, CleanId c → c ≠ client → (h'.record c).expiry = (h.record c).expiry)
    (hmarked : ∀ id secs, h'.sessions.lease id = some (client, secs) → 0 < secs →
      (h'.record client).expiry ≠ none)
    (hleased : (h'.record client).expiry ≠ none →
      ∃ id secs, h'.sessions.lease id = some (client, secs))
    (howned : ∀ d ∈ h'.disk, d.EachCrash Storage.Owned) : h'.Tidy where
  disk := hdisk
  consistent := hcons
  handles := hhandles
  clean id c secs hid := by
    by_cases heq : c = client
    · rw [heq]
      exact hclient
    · exact ht.clean id c secs ((hothers id c secs heq).mp hid)
  marked id c secs hid hpos := by
    by_cases heq : c = client
    · subst heq
      exact hmarked id secs hid hpos
    · have hold := (hothers id c secs heq).mp hid
      rw [hexpiry c (ht.clean id c secs hold) heq]
      exact ht.marked id c secs hold hpos
  leased c hc hrow := by
    by_cases heq : c = client
    · subst heq
      exact hleased hrow
    · rw [hexpiry c hc heq] at hrow
      obtain ⟨id, secs, hid⟩ := ht.leased c hc hrow
      exact ⟨id, secs, (hothers id c secs heq).mpr hid⟩
  owned := howned

/-- Taking a session out of the table and the router leaves handles below the counter. -/
theorem Tidy.handles_effect (ht : h.Tidy) (heffect : Effect h.router.granted h h') :
    ∀ key, h'.router.granted key ≠ none → key.client < h'.nextId := by
  intro key hkey
  have hold : h.router.granted key ≠ none := (heffect.granted_ne_none hkey).elim id id
  exact (ht.handles key hold).trans_le heffect.nextId_le

/-- A session that goes takes its rows along. -/
theorem Tidy.discard_set (ht : h.Tidy) {id : ClientId} {s s' : Session}
    (hs : h.sessions.byId.lookup id = some s) (hclient : s'.clientId = s.clientId) :
    ((h.setSession id s').discard id).Tidy := by
  have hid : h.sessions.lease id = some (s.clientId, s.expirySecs) := by
    rw [SessionTable.lease, SessionTable.holder, hs]
    rfl
  have hclean := ht.clean id s.clientId s.expirySecs hid
  have heffect : Effect h.router.granted h ((h.setSession id s').discard id) :=
    effect_discard (quiet_setSession hs hclient) id
  have hlease := lease_discard_set hs s'
  have hdisk := disk_discard_set hs hclient
  have habout : (PersistOp.removeSession s.clientId).About s.clientId := rfl
  have hrecord : ∀ c, CleanId c → ((h.setSession id s').discard id).record c =
      (PersistOp.removeSession s.clientId).onRecord c (h.record c) := fun c hc => by
    rw [record_congr hdisk, record_enqueue ht.disk (habout.clean hclean) hc]
  refine ht.update hclean ?_ (ht.consistent.effect heffect) (ht.handles_effect heffect) ?_ ?_ ?_ ?_ ?_
  · rw [hdisk, isSome_disk_enqueue]
    exact ht.disk
  · intro i c secs hne
    rw [hlease, Function.update_apply]
    split
    next heq =>
      rw [heq, hid]
      simp [Ne.symm hne]
    next => exact Iff.rfl
  · intro c hc hne
    rw [hrecord c hc, PersistOp.onRecord_of_ne habout hne]
  · intro i secs hi
    rw [hlease, Function.update_apply] at hi
    split at hi
    · cases hi
    next hne => exact absurd (ht.consistent.lease_unique hi hid) hne
  · intro hrow
    rw [hrecord s.clientId hclean, PersistOp.onRecord_removeSession] at hrow
    exact absurd rfl hrow
  · rw [hdisk]
    exact owned_enqueue ht.owned fun _ _ => hclean

/-- Ending a session with expiry 0 removes its rows as well. -/
theorem Tidy.detach (ht : h.Tidy) (id : ClientId) (generation : Nat) :
    (h.detach id generation).Tidy := by
  rcases h.detach_cases id generation with ⟨heq, -⟩ | ⟨s, hs, -, ⟨-, heq⟩ | ⟨-, timers, heq⟩⟩
  · rw [heq]
    exact ht
  · rw [heq]
    refine ht.discard_set hs ?_
    rfl
  · have hoffline : (h.setSession id { s with tx := none }).Tidy := by
      refine ht.same ht.disk (ht.consistent.effect (quiet_setSession hs ?_).effect) ht.handles
        (lease_offline hs) (fun _ _ => rfl) ht.owned
      rfl
    rw [heq]
    exact hoffline.still ⟨rfl, rfl, rfl, rfl, rfl⟩ rfl

theorem Tidy.expire (ht : h.Tidy) (id : ClientId) (generation : Nat) :
    (h.expire id generation).2.Tidy := by
  rcases h.expire_cases id generation with ⟨heq, -⟩ | ⟨s, hs, -, heq⟩
  · rw [heq]
    exact ht
  · rw [heq]
    refine ht.discard_set hs ?_
    rfl

theorem takes_marker {client : String} (hclient : CleanId client) (expirySecs : Nat)
    (st : Storage) : st.Takes (.marker client expirySecs) := by
  unfold PersistOp.marker
  split <;> exact hclient

/-- The session row follows the new expiry; a clean start removes the rows of the old
session first. -/
theorem Tidy.connect (ht : h.Tidy) {clientId : String} (hclean : CleanId clientId)
    {cleanStart : Bool} {expirySecs now : Nat} {c : Connected}
    (hconnect : h.connect clientId cleanStart expirySecs now = some (c, h')) : h'.Tidy := by
  have heffect := effect_connect hconnect
  have hcons' := ht.consistent.effect heffect
  obtain ⟨hown, hothers⟩ := ht.consistent.lease_connect hconnect
  obtain ⟨⟨h₁, hdisk, hbefore⟩, -⟩ := ht.consistent.stores_connect hconnect
  have hmarker := PersistOp.about_marker clientId expirySecs
  have hremove : (PersistOp.removeSession clientId).About clientId := rfl
  -- the store in between: as it was, or without the client
  obtain ⟨hsome, howned, hrecord₁⟩ : h₁.disk.isSome ∧
      (∀ d ∈ h₁.disk, d.EachCrash Storage.Owned) ∧
      ∀ client, CleanId client → client ≠ clientId → h₁.record client = h.record client := by
    rcases hbefore with ⟨hsame, -⟩ | hsame
    · exact ⟨hsame ▸ ht.disk, hsame ▸ ht.owned, fun client _ _ => record_congr hsame client⟩
    · refine ⟨?_, ?_, fun client hclient hne => ?_⟩
      · rw [hsame, isSome_disk_enqueue]
        exact ht.disk
      · rw [hsame]
        exact owned_enqueue ht.owned fun _ _ => hclean
      · rw [record_congr hsame, record_enqueue ht.disk (hremove.clean hclean) hclient,
          PersistOp.onRecord_of_ne hremove hne]
  have hrecord : ∀ client, CleanId client → h'.record client =
      (PersistOp.marker clientId expirySecs).onRecord client (h₁.record client) :=
    fun client hclient => by
      rw [record_congr hdisk, record_enqueue hsome (hmarker.clean hclean) hclient]
  refine ht.update hclean ?_ hcons' (ht.handles_effect heffect) hothers ?_ ?_ ?_ ?_
  · rw [hdisk, isSome_disk_enqueue]
    exact hsome
  · intro client hclient hne
    rw [hrecord client hclient, PersistOp.onRecord_of_ne hmarker hne, hrecord₁ client hclient hne]
  · intro id secs hid hpos
    rw [hcons'.lease_unique hid hown, hown] at hid
    cases hid
    rw [hrecord clientId hclean, PersistOp.onRecord_marker, if_pos hpos]
    exact Option.some_ne_none _
  · exact fun _ => ⟨c.id, expirySecs, hown⟩
  · rw [hdisk]
    exact owned_enqueue howned fun d _ => takes_marker hclean expirySecs d.settled

end Changes

/-! ## Startup -/

/-- Loading an owned store gives a tidy hub. -/
theorem tidy_new {st : Storage} (hst : st.Owned) (retry : RetryConfig) (eventLogMax now : Nat) :
    (Hub.new (some st) retry eventLogMax now).Tidy := by
  have hnew := rebuilt_new st retry eventLogMax now
  have hrow : ∀ id client secs,
      (Hub.new (some st) retry eventLogMax now).sessions.lease id = some (client, secs) →
        (st.record client).expiry ≠ none := by
    intro id client secs hid
    rw [expiry_of_lease_new hid]
    exact Option.some_ne_none _
  refine ⟨rfl, consistent_new _ retry eventLogMax now, ?_, ?_, ?_, ?_, ?_⟩
  · rintro ⟨id, group, filter⟩ hkey
    rw [hnew.granted id (group, filter)] at hkey
    obtain ⟨qos, hqos⟩ := Option.ne_none_iff_exists'.mp hkey
    obtain ⟨ps, hslot, -⟩ := Option.bind_eq_some_iff.mp hqos
    rw [hnew.nextRaw]
    cases id with
    | zero => exact Nat.succ_pos _
    | succ k => exact Nat.succ_lt_succ (List.getElem?_eq_some_iff.mp hslot).1
  · exact fun id client secs hid => hst.clean client (hrow id client secs hid)
  · exact fun id client secs hid _ => hrow id client secs hid
  · intro client _ hexpiry
    obtain ⟨secs, hsecs⟩ := Option.ne_none_iff_exists'.mp hexpiry
    obtain ⟨id, ps, -, -, hid⟩ := exists_lease_new retry eventLogMax now hsecs
    exact ⟨id, secs, hid⟩
  · rintro d ⟨⟩ n
    rw [Disk.crashed, List.take_nil]
    exact hst

/-! ## A clean start -/

/-- What a CONNECT with a clean start leads to. -/
structure StartsClean (h : Hub) (client : String) (expirySecs : Nat) (c : Connected) (h' : Hub) :
    Prop where
  absent : c.sessionPresent = false
  /-- Nothing in flight, nothing seen, the counter at 1 and an empty channel. -/
  session : h'.sessions.byId.lookup c.id =
    some (Session.new client (some []) expirySecs c.generation)
  /-- Neither a normal subscription nor a group membership. -/
  unsubscribed : ∀ key ∈ h'.router.keys, key.client ≠ c.id
  others : ∀ id, id ≠ c.id → h'.sessions.byId.lookup id =
    (h.sessions.byId.lookup id).filter fun s => s.clientId ≠ client
  subscriptions : ∀ key, h.sessions.clientOf key.client ≠ some client →
    h'.router.granted key = h.router.granted key
  /-- The rows of the client once the queue is drained. -/
  record : h'.record client =
    { ClientRecord.empty with expiry := if 0 < expirySecs then some expirySecs else none }
  records : ∀ other, CleanId other → other ≠ client → h'.record other = h.record other

/-- In a consistent table the sessions of other clients are those under other handles. -/
theorem Consistent.filter_lookup {h : Hub} (hcons : h.Consistent) (client : String)
    (id : ClientId) :
    ((h.sessions.byId.lookup id).filter fun s => s.clientId ≠ client) =
      if h.sessions.idOf.lookup client = some id then none else h.sessions.byId.lookup id := by
  have hinverse := hcons.inverse client id
  rw [SessionTable.clientOf] at hinverse
  cases hs : h.sessions.byId.lookup id with
  | none => simp
  | some s =>
      rw [hs, Option.map_some, Option.some_inj] at hinverse
      by_cases hclient : s.clientId = client
      · rw [if_pos (hinverse.mpr hclient)]
        simp [hclient]
      · rw [if_neg (hclient ∘ hinverse.mp)]
        simp [hclient]

section

variable {h : Hub} {client : String}

/-- A client without a session has no rows. -/
theorem Tidy.record_of_absent (ht : h.Tidy) (hclient : CleanId client)
    (habsent : h.sessions.idOf.lookup client = none) : h.record client = .empty := by
  obtain ⟨d, hd⟩ := Option.isSome_iff_exists.mp ht.disk
  have hrecord : h.record client = d.settled.record client := by rw [Hub.record, hd]
  rw [hrecord]
  refine (ht.owned d hd).settled.owner client hclient ?_
  by_contra hexpiry
  rw [← hrecord] at hexpiry
  obtain ⟨id, secs, hid⟩ := ht.leased client hclient hexpiry
  rw [ht.consistent.idOf_of_lease hid] at habsent
  cases habsent

theorem Tidy.unsubscribed_nextId (ht : h.Tidy) (router : Router)
    (hrouter : ∀ key, router.granted key ≠ none → h.router.granted key ≠ none) :
    ∀ key ∈ router.keys, key.client ≠ h.nextId := by
  intro key hkey heq
  have hlt := ht.handles key (hrouter key ((router.granted_ne_none_iff key).mpr hkey))
  exact hlt.ne heq

/-- Entering a client under a fresh handle, once it has neither session nor rows. -/
theorem startsClean_register (h h₁ : Hub) (hclient : CleanId client) (hdisk : h₁.disk.isSome)
    (hnext : h₁.nextId = h.nextId)
    (hkeys : ∀ key ∈ h₁.router.keys, key.client ≠ h.nextId)
    (hothers : ∀ id, h₁.sessions.byId.lookup id =
      (h.sessions.byId.lookup id).filter fun s => s.clientId ≠ client)
    (hsubs : ∀ key, h.sessions.clientOf key.client ≠ some client →
      h₁.router.granted key = h.router.granted key)
    (hempty : h₁.record client = .empty)
    (hrecords : ∀ other, CleanId other → other ≠ client → h₁.record other = h.record other)
    (expirySecs generation : Nat) :
    h.StartsClean client expirySecs ⟨h.nextId, generation, false⟩
      ((h₁.register client expirySecs generation).persistMeta client expirySecs) := by
  have hmarker := PersistOp.about_marker client expirySecs
  have hrecord : ∀ other, CleanId other →
      ((h₁.register client expirySecs generation).persistMeta client expirySecs).record other =
        (PersistOp.marker client expirySecs).onRecord other (h₁.record other) := by
    intro other hother
    rw [persistMeta_eq]
    have hdisk' : (h₁.register client expirySecs generation).disk.isSome := hdisk
    exact record_enqueue hdisk' (hmarker.clean hclient) hother
  have hlookup : ∀ id, ((h₁.register client expirySecs generation).persistMeta client
      expirySecs).sessions.byId.lookup id = if id = h.nextId then
        some (Session.new client (some []) expirySecs generation) else
        h₁.sessions.byId.lookup id := by
    intro id
    simp only [persistMeta_eq, enqueue, register, AssocMap.lookup_insert, hnext]
  have hrouter := (still_persistMeta (h₁.register client expirySecs generation) client
    expirySecs).router
  refine ⟨rfl, ?_, ?_, ?_, ?_, ?_, ?_⟩
  · rw [hlookup, if_pos rfl]
  · rw [hrouter]
    exact hkeys
  · intro id hid
    rw [hlookup, if_neg hid, hothers]
  · intro key hkey
    rw [hrouter]
    exact hsubs key hkey
  · rw [hrecord client hclient, hempty, PersistOp.onRecord_marker]
    split <;> rfl
  · intro other hother hne
    rw [hrecord other hother, PersistOp.onRecord_of_ne hmarker hne, hrecords other hother hne]

theorem Tidy.startsClean (ht : h.Tidy) (hclient : CleanId client) (expirySecs now : Nat) :
    ∃ c h', h.connect client true expirySecs now = some (c, h') ∧
      h.StartsClean client expirySecs c h' := by
  have hfilter := ht.consistent.filter_lookup client
  cases hid : h.sessions.idOf.lookup client with
  | none =>
      refine ⟨_, _, connect_of_absent expirySecs now hid true, ?_⟩
      refine startsClean_register h h.bumpGeneration hclient ht.disk rfl
        (ht.unsubscribed_nextId _ fun _ hkey => hkey) ?_ (fun _ _ => rfl)
        (ht.record_of_absent hclient hid) (fun _ _ _ => rfl) expirySecs _
      intro id
      rw [hfilter, hid, if_neg (by simp)]
      rfl
  | some old =>
      refine ⟨_, _, connect_of_clean expirySecs now hid, ?_⟩
      have hremove : (PersistOp.removeSession client).About client := rfl
      have hbump : h.bumpGeneration.disk.isSome := ht.disk
      have hrecord : ∀ other, CleanId other →
          ((h.bumpGeneration.dropSession old).forgetPersisted client).record other =
            (PersistOp.removeSession client).onRecord other (h.record other) :=
        fun other hother => record_enqueue ht.disk (hremove.clean hclient) hother
      refine startsClean_register h ((h.bumpGeneration.dropSession old).forgetPersisted client)
        hclient ?_ rfl ?_ ?_ ?_ ?_ ?_ expirySecs _
      · rw [forgetPersisted, isSome_disk_enqueue]
        exact hbump
      · exact ht.unsubscribed_nextId _ fun key hkey =>
          (Router.granted_removeClient_ne_none _ _ hkey).2
      · intro id
        rw [hfilter, hid]
        simp only [forgetPersisted, Hub.enqueue, dropSession, bumpGeneration,
          AssocMap.lookup_erase, Option.some_inj, eq_comm]
      · intro key hkey
        have hne : key.client ≠ old := by
          rintro rfl
          exact hkey ((ht.consistent.inverse client _).mp hid)
        simp only [forgetPersisted, Hub.enqueue, dropSession, bumpGeneration,
          Router.granted_removeClient, hne, if_false]
      · rw [hrecord client hclient, PersistOp.onRecord_removeSession]
      · intro other hother hne
        rw [hrecord other hother, PersistOp.onRecord_of_ne hremove hne]

end

end Hub

/-! ## Runs -/

/-- Calls on the hub, and restarts that find so many of the queued writes applied. -/
inductive HubCall where
  | op (op : HubOp)
  | replay (id : ClientId) (start : Nat) (filter : TopicFilter)
  | inboundQos2Seen (id : ClientId) (pid : Nat)
  | inboundQos2Release (id : ClientId) (pid : Nat)
  | flush (ack : Nat)
  | crash (applied : Nat) (retry : RetryConfig) (eventLogMax now : Nat)

def HubCall.Clean : HubCall → Prop
  | .op (.connect clientId _ _ _) => CleanId clientId
  | _ => True

namespace Hub

def serve (h : Hub) : HubCall → Option Hub
  | .op op => h.operate op
  | .replay id start filter => some (h.replay id start filter).2
  | .inboundQos2Seen id pid => some (h.inboundQos2Seen id pid).2
  | .inboundQos2Release id pid => some (h.inboundQos2Release id pid)
  | .flush ack => some (h.flush ack)
  | .crash applied retry eventLogMax now =>
      h.disk.map fun d => new (some (d.crashed applied)) retry eventLogMax now

/-- Every call on the hub keeps it tidy. -/
theorem Tidy.operate {h h' : Hub} (ht : h.Tidy) {op : HubOp} (hclean : (HubCall.op op).Clean)
    (hop : h.operate op = some h') : h'.Tidy := by
  cases op with
  | connect clientId cleanStart expirySecs now =>
      obtain ⟨⟨c, h₁⟩, hconnect, rfl⟩ := Option.map_eq_some_iff.mp hop
      exact ht.connect hclean hconnect
  | subscribe id raw qos =>
      simp only [Hub.operate] at hop
      split at hop
      next hid =>
        cases hop
        exact ht.subscribeRaw hid raw qos
      next => cases hop
  | unsubscribe id raw =>
      cases hop
      exact ht.unsubscribe id raw
  | publish topic payload msgQos retain clock =>
      obtain ⟨⟨n, h₁⟩, hpublish, rfl⟩ := Option.map_eq_some_iff.mp hop
      exact ht.publish hpublish
  | deliverRetained id filter granted now =>
      simp only [Hub.operate, deliverRetained_eq_locked] at hop
      obtain ⟨⟨snapshots, h₁⟩, hlocked, rfl⟩ := Option.map_eq_some_iff.mp hop
      exact ht.written hlocked
  | onAck id ack =>
      simp only [Hub.operate, onAck_eq_locked] at hop
      obtain ⟨⟨snapshots, h₁⟩, hlocked, rfl⟩ := Option.map_eq_some_iff.mp hop
      exact ht.written hlocked
  | runRetries clock => exact ht.runRetries hop
  | detach id generation =>
      cases hop
      exact ht.detach id generation
  | purgeIfIdle id generation clock => exact (ht.expire id generation).deadLetterAll hop
  | work => exact ht.work hop
  | restart retry eventLogMax now =>
      obtain ⟨d, hd, rfl⟩ := Option.map_eq_some_iff.mp hop
      exact tidy_new (ht.owned d hd).settled retry eventLogMax now

theorem Tidy.serve {h h' : Hub} (ht : h.Tidy) {call : HubCall} (hclean : call.Clean)
    (hcall : h.serve call = some h') : h'.Tidy := by
  cases call with
  | op op => exact ht.operate hclean hcall
  | replay id start filter =>
      cases hcall
      unfold Hub.replay
      split
      · exact ht
      · split
        · exact ht
        next s hs =>
          exact ht.still (still_setSession hs (Session.holder_foldl_send _ s)) rfl
  | inboundQos2Seen id pid =>
      cases hcall
      refine ht.still (still_qos2Seen h id pid) ?_
      unfold Hub.inboundQos2Seen
      split <;> rfl
  | inboundQos2Release id pid =>
      cases hcall
      refine ht.still (still_qos2Release h id pid) ?_
      unfold Hub.inboundQos2Release
      split <;> rfl
  | flush ack =>
      cases hcall
      refine ht.enqueue ?_ ?_
      · exact fun _ _ => trivial
      · exact fun _ _ => rfl
  | crash applied retry eventLogMax now =>
      obtain ⟨d, hd, rfl⟩ := Option.map_eq_some_iff.mp hcall
      exact tidy_new (ht.owned d hd applied) retry eventLogMax now

/-- In every state reached from an empty store by calls one at a time and restarts at
any point of the queue, a clean start is clean. -/
theorem startsClean_always (retry : RetryConfig) (eventLogMax now : Nat) (calls : List HubCall)
    (hclean : Machine.Meets serve (fun _ call => call.Clean)
      (new (some Storage.empty) retry eventLogMax now) calls) :
    Machine.Always serve (fun h => ∀ client expirySecs now, CleanId client →
        ∃ c h', h.connect client true expirySecs now = some (c, h') ∧
          h.StartsClean client expirySecs c h')
      (new (some Storage.empty) retry eventLogMax now) calls := by
  refine Machine.always_of_meets Tidy _ (fun _ _ _ ht hok hcall => ht.serve hok hcall)
    (fun h ht client expirySecs now hclient => ht.startsClean hclient expirySecs now) ?_ hclean
  exact tidy_new Storage.owned_empty retry eventLogMax now

instance (call : HubCall) : Decidable call.Clean :=
  match call with
  | .op (.connect _ _ _ _) => inferInstanceAs (Decidable (CleanId _))
  | .op (.subscribe ..) | .op (.unsubscribe ..) | .op (.publish ..) | .op (.deliverRetained ..)
  | .op (.onAck ..) | .op (.runRetries ..) | .op (.detach ..) | .op (.purgeIfIdle ..) | .op .work
  | .op (.restart ..) | .replay .. | .inboundQos2Seen .. | .inboundQos2Release .. | .flush ..
  | .crash .. => isTrue trivial

def interrupted : List HubCall :=
  [.op (.connect "c" true 60 0), .op (.subscribe 1 "t" .atLeastOnce),
    .op (.publish "t" [7] .atLeastOnce false ⟨0, 0⟩), .inboundQos2Seen 1 5,
    .crash 2 ⟨3, 1, 10⟩ 0 0]

theorem startsClean_interrupted :
    (Machine.run serve (new (some Storage.empty) ⟨3, 1, 10⟩ 0 0) interrupted).isSome ∧
      Machine.Always serve (fun h => ∀ client expirySecs now, CleanId client →
          ∃ c h', h.connect client true expirySecs now = some (c, h') ∧
            h.StartsClean client expirySecs c h')
        (new (some Storage.empty) ⟨3, 1, 10⟩ 0 0) interrupted :=
  ⟨by decide +kernel, startsClean_always ⟨3, 1, 10⟩ 0 0 interrupted (by decide +kernel)⟩

end Hub

end Relay
