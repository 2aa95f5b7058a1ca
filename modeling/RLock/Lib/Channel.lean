import Mathlib.Logic.Basic

/-!
# Channels that carry one value

A channel between one sender and one receiver that is used for at most one
value: sending consumes the sender, a value still inside when the receiver goes
away is dropped with it, and a receiver whose sender went away without a value
learns that. Sending to a receiver that is gone gives the value back.

The value, and whether either end is still there, are all the state there is. Both ends
are owned, so an end that is gone does not come back, and which of the operations may
be called when is left to the owners.
-/

/-- A channel for one value of type `α`. -/
structure Channel (α : Type) where
  value : Option α
  txAlive : Bool
  rxAlive : Bool
  deriving DecidableEq, Repr

namespace Channel

variable {α : Type}

/-- A fresh channel, both ends alive. -/
def fresh : Channel α := ⟨none, true, true⟩

/-- Consume the sender. The value comes back when the receiver is gone. -/
def send (v : α) (ch : Channel α) : Option α × Channel α :=
  if ch.rxAlive then (none, { ch with value := some v, txAlive := false })
  else (some v, { ch with txAlive := false })

/-- The sender goes away without a value. -/
def dropTx (ch : Channel α) : Channel α := { ch with txAlive := false }

/-- The receiver goes away, and with it a value still inside. -/
def dropRx (ch : Channel α) : Channel α := { ch with value := none, rxAlive := false }

/-- The receiver takes the value out. -/
def take (ch : Channel α) : Channel α := { ch with value := none }

/-- No value is inside and none will come. -/
def disconnected (ch : Channel α) : Prop := ch.value = none ∧ ch.txAlive = false

instance [DecidableEq α] (ch : Channel α) : Decidable ch.disconnected :=
  inferInstanceAs (Decidable (_ ∧ _))

end Channel
