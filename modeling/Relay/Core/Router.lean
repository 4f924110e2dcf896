import Relay.Core.Topic
import Relay.Foundation.AssocMap

/-! # Subscription routing

The router keeps the normal subscriptions of every client and the members of
every share group, and resolves the recipients of a published topic. A normal
subscriber receives every matching message; of the matching members of a share
group one is selected, round-robin.

The two tables are hash maps in the source. Here the order of their entries is
the iteration order, and nothing below depends on how an update chooses it.
-/

namespace Relay

/-- Broker-assigned handle of a session. The source counts in `u64`. -/
abbrev ClientId := Nat

structure Sub where
  filter : TopicFilter
  qos : QoS
deriving DecidableEq

structure SharedGroup where
  members : List (ClientId × Sub)
  cursor : Nat
deriving DecidableEq

/-- Subscriptions by client, and share groups by name. -/
structure Router where
  normal : AssocMap ClientId (List Sub)
  shared : AssocMap String SharedGroup

/-- `usize` arithmetic wraps at this bound. -/
def usizeBound : Nat := 2 ^ 64

namespace SharedGroup

def default : SharedGroup := ⟨[], 0⟩

def matching (group : SharedGroup) (topic : String) : List (ClientId × QoS) :=
  (group.members.filter fun m => m.2.filter.matchesTopic topic).map fun m => (m.1, m.2.qos)

def selected (group : SharedGroup) (topic : String) : Option (ClientId × QoS) :=
  (group.matching topic)[group.cursor % (group.matching topic).length]?

/-- The cursor moves on exactly when the group was selected from. -/
def advance (group : SharedGroup) (topic : String) : SharedGroup :=
  if group.matching topic = [] then group
  else { group with cursor := (group.cursor + 1) % usizeBound }

end SharedGroup

namespace Router

def new : Router := ⟨∅, ∅⟩

/-- The filter string identifies a subscription within a client's list. -/
def subKey (s : Sub) : String := s.filter.asStr

/-- Client and filter string identify a membership within a group. -/
def memberKey (m : ClientId × Sub) : ClientId × String := (m.1, m.2.filter.asStr)

def subscribe (r : Router) (client : ClientId) (filter : TopicFilter) (qos : QoS) : Router :=
  let subs := AssocList.upsert subKey ⟨filter, qos⟩ (fun s => { s with qos := qos })
    ((r.normal.lookup client).getD [])
  { r with normal := r.normal.insert client subs }

/-- Join a share group; the same filter again updates its granted QoS. -/
def subscribeShared (r : Router) (group : String) (client : ClientId) (filter : TopicFilter)
    (qos : QoS) : Router :=
  let g := (r.shared.lookup group).getD SharedGroup.default
  let members := AssocList.upsert memberKey (client, ⟨filter, qos⟩)
    (fun m => (m.1, { m.2 with qos := qos })) g.members
  { r with shared := r.shared.insert group { g with members := members } }

/-- Remove one normal subscription; the flag says whether it existed. -/
def unsubscribe (r : Router) (client : ClientId) (filter : String) : Router × Bool :=
  match r.normal.lookup client with
  | none => (r, false)
  | some subs =>
      let kept := subs.filter fun s => s.filter.asStr ≠ filter
      let removed := kept.length != subs.length
      if kept = [] then ({ r with normal := r.normal.erase client }, removed)
      else ({ r with normal := r.normal.insert client kept }, removed)

def unsubscribeShared (r : Router) (group : String) (client : ClientId) (filter : String) :
    Router × Bool :=
  match r.shared.lookup group with
  | none => (r, false)
  | some g =>
      let kept := g.members.filter fun m => ¬ (m.1 = client ∧ m.2.filter.asStr = filter)
      let removed := kept.length != g.members.length
      if kept = [] then ({ r with shared := r.shared.erase group }, removed)
      else ({ r with shared := r.shared.insert group { g with members := kept } }, removed)

def removeClient (r : Router) (client : ClientId) : Router :=
  let shared := r.shared.mapVal fun _ g =>
    { g with members := g.members.filter fun m => m.1 ≠ client }
  { normal := r.normal.erase client
    shared := shared.retain fun _ g => !g.members.isEmpty }

def subscriptionCount (r : Router) : Nat :=
  (r.normal.values.map List.length).sum + (r.shared.values.map fun g => g.members.length).sum

/-- Granted QoS of a client for a topic: the maximum over its matching filters. -/
def maxGranted (subs : List Sub) (topic : String) : Option QoS :=
  ((subs.filter fun s => s.filter.matchesTopic topic).map Sub.qos).max?

/-- `sort_by_key` on the client: a stable sort, here by insertion. -/
def sortByClient (l : List (ClientId × QoS)) : List (ClientId × QoS) :=
  l.insertionSort fun a b => a.1 ≤ b.1

def matchingSubscribers (r : Router) (topic : String) : List (ClientId × QoS) :=
  sortByClient (r.normal.entries.filterMap fun e =>
    (maxGranted e.2 topic).map fun qos => (e.1, qos))

/-- All recipients of a topic, and the router with the cursors moved on. -/
def route (r : Router) (topic : String) : List (ClientId × QoS) × Router :=
  let recipients := r.matchingSubscribers topic ++
    r.shared.values.filterMap fun g => g.selected topic
  (sortByClient recipients, { r with shared := r.shared.mapVal fun _ g => g.advance topic })

end Router

end Relay
