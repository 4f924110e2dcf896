import Relay.Core.Topic
import Relay.Foundation.AssocMap

/-! # Retained messages

The last retained message of every topic, replayed to new subscribers. An empty
payload clears the topic.
-/

namespace Relay

/-- Last retained message by topic name. -/
structure RetainedStore where
  byTopic : AssocMap String Message

namespace RetainedStore

def new : RetainedStore := ⟨∅⟩

/-- Store a retained message, or clear its topic when the payload is empty. -/
def apply (store : RetainedStore) (message : Message) : RetainedStore :=
  if message.payload = [] then ⟨store.byTopic.erase message.topic⟩
  else ⟨store.byTopic.insert message.topic message⟩

/-- The retained messages a filter matches, ordered by topic. -/
def matching (store : RetainedStore) (filter : TopicFilter) : List Message :=
  (store.byTopic.entries.filter fun e => filter.matchesTopic e.1).map Sigma.snd
    |>.insertionSort fun a b => a.topic ≤ b.topic

end RetainedStore

end Relay
