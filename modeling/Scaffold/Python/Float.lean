import Mathlib.Algebra.Group.Int.Defs
import Mathlib.Algebra.Group.Nat.Defs
import Mathlib.Tactic.Common

namespace Scaffold.Python

-- Every finite double is a whole number of units of 2^-1074 with a significand of 53 bits.
def Representable (units : Nat) : Prop :=
  units < 2 ^ 2098 ∧ units % 2 ^ (units.log2 - 52) = 0

instance (units : Nat) : Decidable (Representable units) :=
  inferInstanceAs (Decidable (_ ∧ _))

theorem representable_zero : Representable 0 := by decide +kernel

theorem representable_one : Representable 1 := by decide +kernel

-- `float`: the two zeros are different values, the payload of a NaN is not.
inductive PyFloat where
  | nan
  | infinite (negative : Bool)
  | finite (negative : Bool) (units : Nat) (exact : Representable units)
  deriving DecidableEq

namespace PyFloat

def neg : PyFloat → PyFloat
  | .nan => .nan
  | .infinite negative => .infinite !negative
  | .finite negative units exact => .finite (!negative) units exact

def isfinite : PyFloat → Bool
  | .finite .. => true
  | _ => false

def signed (negative : Bool) (units : Nat) : Int :=
  if negative then -units else units

-- The comparison `a <= b`, which a NaN never passes.
def le : PyFloat → PyFloat → Bool
  | .nan, _ | _, .nan => false
  | .infinite negative, .infinite negative' => negative || !negative'
  | .infinite negative, .finite .. => negative
  | .finite .., .infinite negative => !negative
  | .finite negative units _, .finite negative' units' _ => signed negative units ≤ signed negative' units'

theorem signed_not (negative : Bool) (units : Nat) : signed (!negative) units = -signed negative units := by
  cases negative <;> simp [signed]

-- Negation turns the order around.
theorem le_neg (a b : PyFloat) : le b.neg a.neg = le a b := by
  cases a with
  | nan => cases b <;> rfl
  | infinite negative => cases b <;> simp [le, neg, Bool.or_comm]
  | finite negative units exact =>
      cases b with
      | nan => rfl
      | infinite negative' => simp [le, neg]
      | finite negative' units' exact' => simp [le, neg, signed_not]

end PyFloat

end Scaffold.Python
