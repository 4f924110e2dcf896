import Mathlib

/-! # Quality of service and messages

The delivery guarantee of a PUBLISH and the message that flows through the
broker. Payloads are opaque bytes.
-/

namespace Relay

abbrev Bytes := List UInt8

/-- Delivery guarantee requested for a PUBLISH. The wire codec's own `QoS` has
the same three values, so it is this type as well. -/
inductive QoS where
  | atMostOnce
  | atLeastOnce
  | exactlyOnce
deriving DecidableEq, Repr

namespace QoS

/-- The discriminant, as `qos as u8`. -/
def toNat : QoS → Nat
  | atMostOnce => 0
  | atLeastOnce => 1
  | exactlyOnce => 2

theorem toNat_injective : Function.Injective toNat := by
  intro a b h
  cases a <;> cases b <;> simp_all [toNat]

/-- The derived order: declaration order of the three levels. -/
instance : LinearOrder QoS := LinearOrder.lift' toNat toNat_injective

/-- Parse the two-bit field of the wire; 3 is reserved. -/
def fromU8 (value : UInt8) : Option QoS :=
  if value = 0 then some atMostOnce
  else if value = 1 then some atLeastOnce
  else if value = 2 then some exactlyOnce
  else none

def toU8 (qos : QoS) : UInt8 := UInt8.ofNat qos.toNat

/-- Every level survives the wire; the reserved value is none of them. -/
@[simp] theorem fromU8_toU8 (qos : QoS) : fromU8 qos.toU8 = some qos := by
  cases qos <;> decide

end QoS

/-- A message in the broker: topic name, payload, and the delivery flags of the
PUBLISH that carried it. -/
structure Message where
  topic : String
  payload : Bytes
  qos : QoS
  retain : Bool
deriving DecidableEq, Repr

end Relay
