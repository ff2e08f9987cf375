import Mathlib.Tactic.Common
import Mathlib.Tactic.IntervalCases

namespace Scaffold.Python

-- Base64 with the standard alphabet.

def base64Char (n : Nat) : Char :=
  if n < 26 then .ofNat (65 + n)
  else if n < 52 then .ofNat (71 + n)
  else if n < 62 then .ofNat (n - 4)
  else if n = 62 then '+'
  else '/'

def base64Value (c : Char) : Option Nat :=
  if 'A' ≤ c ∧ c ≤ 'Z' then some (c.toNat - 65)
  else if 'a' ≤ c ∧ c ≤ 'z' then some (c.toNat - 71)
  else if '0' ≤ c ∧ c ≤ '9' then some (c.toNat + 4)
  else if c = '+' then some 62
  else if c = '/' then some 63
  else none

-- `base64.b64encode`: three bytes become four characters.
def b64encode : List UInt8 → List Char
  | [] => []
  | [x] => [base64Char (x.toNat / 4), base64Char (x.toNat % 4 * 16), '=', '=']
  | [x, y] =>
      [base64Char (x.toNat / 4), base64Char (x.toNat % 4 * 16 + y.toNat / 16),
        base64Char (y.toNat % 16 * 4), '=']
  | x :: y :: z :: rest =>
      base64Char (x.toNat / 4) :: base64Char (x.toNat % 4 * 16 + y.toNat / 16) ::
        base64Char (y.toNat % 16 * 4 + z.toNat / 64) :: base64Char (z.toNat % 64) :: b64encode rest

-- `base64.b64decode` with `validate=True`. The bits that are left over in the last character before
-- the padding are not checked.
def b64decode : List Char → Option (List UInt8)
  | [] => some []
  | [a, b, '=', '='] => do
      let a ← base64Value a
      let b ← base64Value b
      some [.ofNat (a * 4 + b / 16)]
  | [a, b, c, '='] => do
      let a ← base64Value a
      let b ← base64Value b
      let c ← base64Value c
      some [.ofNat (a * 4 + b / 16), .ofNat (b % 16 * 16 + c / 4)]
  | a :: b :: c :: d :: rest => do
      let a ← base64Value a
      let b ← base64Value b
      let c ← base64Value c
      let d ← base64Value d
      let rest ← b64decode rest
      some (.ofNat (a * 4 + b / 16) :: .ofNat (b % 16 * 16 + c / 4) :: .ofNat (c % 4 * 64 + d) :: rest)
  | _ => none

theorem base64Value_char {n : Nat} (h : n < 64) : base64Value (base64Char n) = some n := by
  interval_cases n <;> decide

theorem base64Char_ne_pad {n : Nat} (h : n < 64) : base64Char n ≠ '=' := by
  interval_cases n <;> decide

section Groups

variable {a b c d : Nat} (ha : a < 64) (hb : b < 64) (hc : c < 64) (hd : d < 64)

include ha hb

theorem b64decode_one :
    b64decode [base64Char a, base64Char b, '=', '='] = some [.ofNat (a * 4 + b / 16)] := by
  simp [b64decode, base64Value_char ha, base64Value_char hb]

include hc

theorem b64decode_two :
    b64decode [base64Char a, base64Char b, base64Char c, '='] =
      some [.ofNat (a * 4 + b / 16), .ofNat (b % 16 * 16 + c / 4)] := by
  have hpad := base64Char_ne_pad hc
  rw [b64decode]
  · simp [base64Value_char ha, base64Value_char hb, base64Value_char hc]
  · exact hpad

include hd

theorem b64decode_three (rest : List Char) :
    b64decode (base64Char a :: base64Char b :: base64Char c :: base64Char d :: rest) =
      (b64decode rest).map fun bytes =>
        .ofNat (a * 4 + b / 16) :: .ofNat (b % 16 * 16 + c / 4) :: .ofNat (c % 4 * 64 + d) :: bytes := by
  have hpad := base64Char_ne_pad hd
  rw [b64decode]
  · simp only [base64Value_char ha, base64Value_char hb, base64Value_char hc, base64Value_char hd,
      Option.bind_eq_bind, Option.bind_some]
    cases b64decode rest <;> rfl
  · intro _ h
    exact absurd h hpad
  · intro h
    exact absurd h hpad

end Groups

theorem ofNat_eq_byte {n : Nat} {x : UInt8} (h : n = x.toNat) : UInt8.ofNat n = x := by
  subst h
  exact UInt8.ofNat_toNat

theorem b64decode_b64encode (bytes : List UInt8) : b64decode (b64encode bytes) = some bytes := by
  induction bytes using b64encode.induct with
  | case1 => rfl
  | case2 x =>
      have hx := x.toNat_lt
      have hbyte : UInt8.ofNat (x.toNat / 4 * 4 + x.toNat % 4 * 16 / 16) = x := ofNat_eq_byte (by omega)
      rw [b64encode, b64decode_one (by omega) (by omega), hbyte]
  | case3 x y =>
      have hx := x.toNat_lt
      have hy := y.toNat_lt
      have hfirst : UInt8.ofNat (x.toNat / 4 * 4 + (x.toNat % 4 * 16 + y.toNat / 16) / 16) = x :=
        ofNat_eq_byte (by omega)
      have hsecond : UInt8.ofNat ((x.toNat % 4 * 16 + y.toNat / 16) % 16 * 16 + y.toNat % 16 * 4 / 4) = y :=
        ofNat_eq_byte (by omega)
      rw [b64encode, b64decode_two (by omega) (by omega) (by omega), hfirst, hsecond]
  | case4 x y z rest ih =>
      have hx := x.toNat_lt
      have hy := y.toNat_lt
      have hz := z.toNat_lt
      have hfirst : UInt8.ofNat (x.toNat / 4 * 4 + (x.toNat % 4 * 16 + y.toNat / 16) / 16) = x :=
        ofNat_eq_byte (by omega)
      have hsecond : UInt8.ofNat ((x.toNat % 4 * 16 + y.toNat / 16) % 16 * 16 +
          (y.toNat % 16 * 4 + z.toNat / 64) / 4) = y := ofNat_eq_byte (by omega)
      have hthird : UInt8.ofNat ((y.toNat % 16 * 4 + z.toNat / 64) % 4 * 64 + z.toNat % 64) = z :=
        ofNat_eq_byte (by omega)
      rw [b64encode, b64decode_three (by omega) (by omega) (by omega) (by omega), ih, Option.map_some,
        hfirst, hsecond, hthird]

end Scaffold.Python
