/-!
# Words of 64 bits

Addresses and counts are numbers below 2^64. A sum or product that leaves this range is an
`Overflow`, which ends the whole program.
-/

namespace PatchTriage

inductive Overflow where
  | add
  | mul
  deriving DecidableEq

def Overflow.message : Overflow → String
  | add => "attempt to add with overflow"
  | mul => "attempt to multiply with overflow"

namespace Word

def bound : Nat := Nat.pow 2 64

def add (a b : Nat) : Except Overflow Nat := if a + b < bound then .ok (a + b) else .error .add

def mul (a b : Nat) : Except Overflow Nat := if a * b < bound then .ok (a * b) else .error .mul

end Word

end PatchTriage
