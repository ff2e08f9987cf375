import Scaffold.Decimal
import Scaffold.Python.Float

namespace Scaffold.Python.PyFloat

open Decimal

-- The text of a `float`, and the `float` of a text.

-- A number of units `a / b`, rounded to a multiple of the last place; a tie goes to the even one.
def roundUnits (a b : Nat) : Nat :=
  let place := 2 ^ ((a / b).log2 - 52)
  let low := a / (b * place)
  let twice := 2 * (a % (b * place))
  place * (if twice < b * place then low else if b * place < twice then low + 1 else low + low % 2)

-- Units from 2^1024 on are infinite.
def ofUnits (negative : Bool) (units : Nat) : PyFloat :=
  if exact : Representable units then .finite negative units exact else .infinite negative

-- The double nearest to `mantissa * 10 ^ exponent`.
def ofDecimal (negative : Bool) (mantissa : Nat) (exponent : Int) : PyFloat :=
  ofUnits negative (roundUnits (mantissa * 10 ^ exponent.toNat * 2 ^ 1074) (10 ^ (-exponent).toNat))

-- One unit is 5^1074 * 10^-1074: the digits of the exact value.
def exactMantissa (units : Nat) : Nat := units * 5 ^ 1074

-- The two decimals of `count` digits around a value, the nearer one first.
def candidates (units count : Nat) : List (Nat × Int) :=
  let mantissa := exactMantissa units
  let dropped := (decimal mantissa).length - count
  let low := mantissa / 10 ^ dropped
  let twice := 2 * (mantissa % 10 ^ dropped)
  let below : Nat × Int := (low, dropped - 1074)
  let above : Nat × Int :=
    if low + 1 = 10 ^ count then (1, dropped + count - 1074) else (low + 1, dropped - 1074)
  if twice < 10 ^ dropped ∨ twice = 10 ^ dropped ∧ low % 2 = 0 then [below, above] else [above, below]

def readsAs (units : Nat) (d : Nat × Int) : Bool :=
  0 < d.1 ∧ ofDecimal false d.1 d.2 = ofUnits false units

-- The shortest decimal that is read as the value. With all its digits the value is exact.
def shortest (units : Nat) : Nat × Int :=
  if units = 0 then (0, 0)
  else ((List.range (decimal (exactMantissa units)).length).findSome? fun i =>
    (candidates units (i + 1)).find? (readsAs units)).getD (exactMantissa units, -1074)

-- An exponent with its sign and two digits at least.
def exponentText (exponent : Int) : List Char :=
  let digits := decimal exponent.natAbs
  'e' :: (if exponent < 0 then '-' else '+') :: (if digits.length < 2 then '0' :: digits else digits)

-- The digits of a decimal around its point; a large or small number has an exponent.
def layout (mantissa : Nat) (exponent : Int) : List Char :=
  let digits := decimal mantissa
  let point := digits.length + exponent
  if point ≤ -4 ∨ 16 < point then
    digits.take 1 ++ (if digits.length = 1 then [] else '.' :: digits.drop 1) ++ exponentText (point - 1)
  else if point ≤ 0 then '0' :: '.' :: List.replicate (-point).toNat '0' ++ digits
  else if digits.length ≤ point then digits ++ List.replicate exponent.toNat '0' ++ ['.', '0']
  else digits.take point.toNat ++ '.' :: digits.drop point.toNat

def signText (negative : Bool) : List Char := if negative then ['-'] else []

-- `float.__repr__` of a finite value, and the names of the others in JSON.
def text : PyFloat → List Char
  | .nan => "NaN".toList
  | .infinite negative => signText negative ++ "Infinity".toList
  | .finite negative units _ => signText negative ++ layout (shortest units).1 (shortest units).2

section Reading

-- A value that needs no rounding is kept.
theorem roundUnits_exact {units b : Nat} (hb : 0 < b) (h : Representable units) :
    roundUnits (units * b) b = units := by
  have hdivides : 2 ^ (units.log2 - 52) ∣ units := Nat.dvd_of_mod_eq_zero h.2
  have hlow : units * b / (b * 2 ^ (units.log2 - 52)) = units / 2 ^ (units.log2 - 52) := by
    rw [Nat.mul_comm units b, Nat.mul_div_mul_left _ _ hb]
  have hrest : units * b % (b * 2 ^ (units.log2 - 52)) = 0 := by
    rw [Nat.mul_comm units b, Nat.mul_mod_mul_left, h.2, Nat.mul_zero]
  have hplace : 0 < b * 2 ^ (units.log2 - 52) := Nat.mul_pos hb (Nat.two_pow_pos _)
  unfold roundUnits
  dsimp only
  rw [Nat.mul_div_cancel _ hb, hlow, hrest, Nat.mul_zero, if_pos hplace]
  exact Nat.mul_div_cancel' hdivides

theorem roundUnits_scale {a b c : Nat} (hc : 0 < c) : roundUnits (a * c) (b * c) = roundUnits a b := by
  unfold roundUnits
  dsimp only
  rw [Nat.mul_div_mul_right _ _ hc]
  have hunit : b * c * 2 ^ ((a / b).log2 - 52) = b * 2 ^ ((a / b).log2 - 52) * c := Nat.mul_right_comm _ _ _
  have hlt : ∀ x y : Nat, x * c < y * c ↔ x < y := fun x y => Nat.mul_lt_mul_right hc
  rw [hunit, Nat.mul_div_mul_right _ _ hc, Nat.mul_mod_mul_right, ← Nat.mul_assoc 2]
  simp only [hlt]

-- Zeros at the end of the digits only move the point.
theorem ofDecimal_zeros (negative : Bool) (mantissa : Nat) {exponent : Int} (h : 0 ≤ exponent) :
    ofDecimal negative (mantissa * 10 ^ exponent.toNat * 10)
      (-1) = ofDecimal negative mantissa exponent := by
  have hzero : (-exponent).toNat = 0 := Int.toNat_of_nonpos (by omega)
  have hmove : mantissa * 10 ^ exponent.toNat * 10 * 10 ^ (-1 : Int).toNat * 2 ^ 1074 =
      mantissa * 10 ^ exponent.toNat * 2 ^ 1074 * 10 := by
    rw [show (-1 : Int).toNat = 0 from rfl, Nat.pow_zero, Nat.mul_one, Nat.mul_right_comm]
  have hplace : (10 : Nat) ^ (- -1 : Int).toNat = 1 * 10 := rfl
  unfold ofDecimal
  rw [hmove, hplace, roundUnits_scale (by decide), hzero, Nat.pow_zero]

theorem ofUnits_exact (negative : Bool) {units : Nat} (h : Representable units) :
    ofUnits negative units = .finite negative units h :=
  dif_pos h

theorem ofUnits_false_injective {units units' : Nat} (h : Representable units)
    (heq : ofUnits false units' = ofUnits false units) : units' = units := by
  rw [ofUnits_exact false h] at heq
  unfold ofUnits at heq
  split at heq
  · exact (PyFloat.finite.inj heq).2
  · cases heq

theorem mul_five_two_pow (units k : Nat) : units * 5 ^ k * 2 ^ k = units * 10 ^ k := by
  rw [Nat.mul_assoc, ← Nat.mul_pow]

theorem exactMantissa_reads (negative : Bool) {units : Nat} (h : Representable units) :
    ofDecimal negative (exactMantissa units) (-1074) = .finite negative units h := by
  have hunits : exactMantissa units * 10 ^ (-1074 : Int).toNat * 2 ^ 1074 =
    units * 10 ^ (- -1074 : Int).toNat := by
    have hdown : (-1074 : Int).toNat = 0 := rfl
    have hup : (- -1074 : Int).toNat = 1074 := rfl
    rw [hdown, hup, Nat.pow_zero, Nat.mul_one]
    exact mul_five_two_pow units 1074
  unfold ofDecimal
  rw [hunits, roundUnits_exact (Nat.pow_pos (by decide)) h, ofUnits_exact negative h]

theorem readsAs_signed (negative : Bool) {units : Nat} (h : Representable units) {d : Nat × Int}
    (hd : readsAs units d = true) : ofDecimal negative d.1 d.2 = .finite negative units h := by
  have heq : ofDecimal false d.1 d.2 = ofUnits false units := (by simpa [readsAs] using hd : _ ∧ _).2
  have hunits := ofUnits_false_injective h heq
  unfold ofDecimal
  rw [hunits, ofUnits_exact negative h]

-- The shortest decimal is read as the value it stands for.
theorem shortest_reads (negative : Bool) {units : Nat} (h : Representable units) :
    ofDecimal negative (shortest units).1 (shortest units).2 = .finite negative units h := by
  unfold shortest
  split_ifs with hzero
  · subst hzero
    have hround : roundUnits 0 1 = 0 := by
      have hexact := roundUnits_exact (by decide : 0 < 1) h
      rwa [Nat.zero_mul] at hexact
    unfold ofDecimal
    dsimp only
    rw [Nat.zero_mul, Nat.zero_mul]
    exact (congrArg (ofUnits negative) hround).trans (ofUnits_exact negative h)
  · cases hfind : (List.range (decimal (exactMantissa units)).length).findSome? fun i =>
        (candidates units (i + 1)).find? (readsAs units) with
    | none => exact exactMantissa_reads negative h
    | some d =>
        obtain ⟨i, -, hcandidate⟩ := List.exists_of_findSome?_eq_some hfind
        exact readsAs_signed negative h (List.find?_some hcandidate)

-- Only zero has the digit zero.
theorem shortest_pos (units : Nat) : 0 < (shortest units).1 ∨ shortest units = (0, 0) := by
  unfold shortest
  split_ifs with hzero
  · exact .inr rfl
  · left
    cases hfind : (List.range (decimal (exactMantissa units)).length).findSome? fun i =>
        (candidates units (i + 1)).find? (readsAs units) with
    | none =>
        have hpow : ∀ k, 0 < units * 5 ^ k := fun k => Nat.mul_pos (Nat.pos_of_ne_zero hzero)
          (Nat.pow_pos (by decide))
        exact hpow 1074
    | some d =>
        obtain ⟨i, -, hcandidate⟩ := List.exists_of_findSome?_eq_some hfind
        exact (by simpa [readsAs] using List.find?_some hcandidate : _ ∧ _).1

end Reading

end Scaffold.Python.PyFloat
