import Mathlib.Data.Char
import Mathlib.Data.List.Lex
import Mathlib.Tactic.Common
import Mathlib.Tactic.IntervalCases

namespace Scaffold.Decimal

-- Numbers as decimal texts, and the texts compared as such.

abbrev Text := List Char

def decimal (n : Nat) : Text := Nat.toDigits 10 n

-- The pattern `^[1-9][0-9]*$`.
def isPositiveDecimal : Text → Bool
  | [] => false
  | c :: rest => c.isDigit && c != '0' && rest.all Char.isDigit

def integerText : Int → Text
  | .ofNat n => decimal n
  | .negSucc n => '-' :: decimal (n + 1)

-- The order by length and then by characters.
def textBelow (a b : Text) : Bool :=
  a.length < b.length || (a.length == b.length && decide (a < b))

theorem isDigit_of_mem_decimal {c : Char} {n : Nat} (h : c ∈ decimal n) : c.isDigit = true :=
  Nat.isDigit_of_mem_toDigits (by decide) (by decide) h

@[simp] theorem ofDigitChars_decimal (n : Nat) : Nat.ofDigitChars 10 (decimal n) 0 = n :=
  Nat.ofDigitChars_ten_toDigits

theorem decimal_injective {m n : Nat} (h : decimal m = decimal n) : m = n := by
  rw [← ofDigitChars_decimal m, h, ofDigitChars_decimal]

-- A character that is no digit ends a decimal.
theorem decimal_append_injective {m n : Nat} {c : Char} {x y : Text} (hc : c.isDigit = false)
    (h : decimal m ++ c :: x = decimal n ++ c :: y) : m = n ∧ x = y := by
  have hdigits : ∀ (k : Nat) (z : Text), (decimal k ++ c :: z).takeWhile Char.isDigit = decimal k := by
    intro k z
    rw [List.takeWhile_append_of_pos fun _ => isDigit_of_mem_decimal,
      List.takeWhile_cons_of_neg (by simp [hc]),
      List.append_nil]
  have hmn : decimal m = decimal n := by rw [← hdigits m x, h, hdigits n y]
  rw [hmn] at h
  exact ⟨decimal_injective hmn, (List.cons.inj (List.append_cancel_left h)).2⟩

theorem decimal_length_le_iff {n k : Nat} (hk : 0 < k) : (decimal n).length ≤ k ↔ n < 10 ^ k :=
  Nat.length_toDigits_le_iff (by decide) hk

theorem decimal_length_pos (n : Nat) : 0 < (decimal n).length :=
  Nat.length_toDigits_pos

-- A decimal without its last digit is the decimal of the tenth part.
theorem decimal_eq_append {n : Nat} (h : 10 ≤ n) : decimal n = decimal (n / 10) ++ [(n % 10).digitChar] :=
  Nat.toDigits_of_base_le (by decide) h

theorem decimal_head_ne_zero {n : Nat} (h : 0 < n) : (decimal n).head? ≠ some '0' := by
  induction n using Nat.strong_induction_on with
  | _ n ih =>
      by_cases hn : n < 10
      · have hd : decimal n = [n.digitChar] := Nat.toDigits_of_lt_base hn
        rw [hd]
        interval_cases n <;> decide
      · have hne : decimal (n / 10) ≠ [] := Nat.toDigits_ne_nil
        rw [decimal_eq_append (by omega), List.head?_append_of_ne_nil _ hne]
        exact ih (n / 10) (by omega) (by omega)

theorem isPositiveDecimal_decimal {n : Nat} (h : 0 < n) : isPositiveDecimal (decimal n) = true := by
  have hzero := decimal_head_ne_zero h
  have hdigit : ∀ c ∈ decimal n, c.isDigit = true := fun c hc => isDigit_of_mem_decimal hc
  cases hd : decimal n with
  | nil => exact absurd hd Nat.toDigits_ne_nil
  | cons c rest =>
      rw [hd] at hzero hdigit
      have hc : c ≠ '0' := by simpa using hzero
      simp [isPositiveDecimal, hc, hdigit c (by simp)]
      intro x hx
      exact hdigit x (by simp [hx])

theorem digit_range {c : Char} (h : c.isDigit = true) : 48 ≤ c.toNat ∧ c.toNat ≤ 57 := by
  simp only [Char.isDigit, Bool.and_eq_true, decide_eq_true_eq, UInt32.le_iff_toNat_le] at h
  exact h

theorem digitChar_of_isDigit {c : Char} (h : c.isDigit = true) : (c.toNat - '0'.toNat).digitChar = c := by
  have hc := digit_range h
  have hzero : '0'.toNat = 48 := rfl
  apply Char.toNat_inj.mp
  rw [Nat.toNat_digitChar_of_lt_ten (by omega)]
  omega

-- Digits behind a decimal go on with it.
theorem decimal_append {n : Nat} {digits : Text} (hn : 0 < n) (hdigits : ∀ c ∈ digits, c.isDigit = true) :
    decimal (Nat.ofDigitChars 10 digits n) = decimal n ++ digits := by
  induction digits generalizing n with
  | nil => simp
  | cons c digits ih =>
      have hdigit := hdigits c List.mem_cons_self
      have hc := digit_range hdigit
      have hzero : '0'.toNat = 48 := rfl
      have hnext : decimal (10 * n + (c.toNat - '0'.toNat)) = decimal n ++ [c] := by
        rw [decimal_eq_append (by omega),
          show (10 * n + (c.toNat - '0'.toNat)) / 10 = n by omega,
          show (10 * n + (c.toNat - '0'.toNat)) % 10 = c.toNat - '0'.toNat by omega,
            digitChar_of_isDigit hdigit]
      rw [Nat.ofDigitChars_cons, ih (by omega) fun x hx => hdigits x (List.mem_cons_of_mem _ hx), hnext,
        List.append_assoc]
      rfl

-- The pattern accepts the decimals of the positive numbers and no other text.
theorem isPositiveDecimal_iff {text : Text} :
    isPositiveDecimal text = true ↔ ∃ n, 0 < n ∧ text = decimal n := by
  constructor
  · intro h
    cases text with
    | nil => cases h
    | cons c digits =>
        simp only [isPositiveDecimal, Bool.and_eq_true, bne_iff_ne] at h
        obtain ⟨⟨hdigit, hne⟩, hdigits⟩ := h
        have hc := digit_range hdigit
        have hzero : '0'.toNat = 48 := rfl
        have hpos : 0 < c.toNat - '0'.toNat := by
          have hnot : c.toNat ≠ '0'.toNat := fun heq => hne (Char.toNat_inj.mp heq)
          omega
        have hone : decimal (c.toNat - '0'.toNat) = [c] := by
          rw [decimal, Nat.toDigits_of_lt_base (by omega), digitChar_of_isDigit hdigit]
        have hall : ∀ x ∈ digits, x.isDigit = true := List.all_eq_true.mp hdigits
        refine ⟨Nat.ofDigitChars 10 digits (c.toNat - '0'.toNat), ?_, ?_⟩
        · by_contra hnone
          have htext := decimal_append hpos hall
          rw [Nat.eq_zero_of_not_pos hnone, hone] at htext
          have hhead : '0' = c := (List.cons.inj htext).1
          exact hne hhead.symm
        · rw [decimal_append hpos hall, hone]
          rfl
  · rintro ⟨n, hn, rfl⟩
    exact isPositiveDecimal_decimal hn

theorem ofDigitChars_lt_pow {a : Text} (ha : ∀ c ∈ a, c.isDigit = true) :
    Nat.ofDigitChars 10 a 0 < 10 ^ a.length := by
  induction a with
  | nil => simp
  | cons c rest ih =>
      have hc := digit_range (ha c (by simp))
      have hrest := ih fun x hx => ha x (by simp [hx])
      simp only [Nat.ofDigitChars_cons, Nat.mul_zero, Nat.zero_add]
      rw [Nat.ofDigitChars_eq_ofDigitChars_zero, List.length_cons, Nat.pow_succ]
      have hdigit : c.toNat - '0'.toNat ≤ 9 := by
        have hzero : '0'.toNat = 48 := rfl
        omega
      have hmul : 10 ^ rest.length * (c.toNat - '0'.toNat) ≤ 10 ^ rest.length * 9 :=
        Nat.mul_le_mul_left _ hdigit
      omega

-- Two texts of digits of one length compare as their numbers do.
theorem ofDigitChars_lt_of_lt {a b : Text} (hlen : a.length = b.length)
    (ha : ∀ c ∈ a, c.isDigit = true) (hb : ∀ c ∈ b, c.isDigit = true) (h : a < b) :
    Nat.ofDigitChars 10 a 0 < Nat.ofDigitChars 10 b 0 := by
  induction a generalizing b with
  | nil =>
      cases b with
      | nil => exact absurd h (List.lt_irrefl [])
      | cons d bs => cases hlen
  | cons c as ih =>
      cases b with
      | nil => cases hlen
      | cons d bs =>
          have hlen' : as.length = bs.length := by simpa using hlen
          have hc := digit_range (ha c (by simp))
          have hd := digit_range (hb d (by simp))
          have has : ∀ x ∈ as, x.isDigit = true := fun x hx => ha x (by simp [hx])
          have hbs : ∀ x ∈ bs, x.isDigit = true := fun x hx => hb x (by simp [hx])
          have hzero : '0'.toNat = 48 := rfl
          simp only [Nat.ofDigitChars_cons, Nat.mul_zero, Nat.zero_add]
          rw [Nat.ofDigitChars_eq_ofDigitChars_zero, Nat.ofDigitChars_eq_ofDigitChars_zero (l := bs), hlen']
          rcases List.cons_lt_cons_iff.mp h with hlt | ⟨rfl, hlt⟩
          · -- the first digit decides, whatever the others are
            have hless : c.toNat < d.toNat := by
              have := Char.lt_def.mp hlt
              exact UInt32.lt_iff_toNat_lt.mp this
            have hsmall := ofDigitChars_lt_pow has
            rw [hlen'] at hsmall
            have hmul :
              10 ^ bs.length * (c.toNat - '0'.toNat + 1) ≤ 10 ^ bs.length * (d.toNat - '0'.toNat) :=
              Nat.mul_le_mul_left _ (by omega)
            rw [Nat.mul_add, Nat.mul_one] at hmul
            omega
          · have := ih hlen' has hbs hlt
            omega

-- The order by length and then by characters is the order of the numbers.
theorem textBelow_decimal (m n : Nat) : textBelow (decimal m) (decimal n) = decide (m < n) := by
  have hshorter : ∀ a b : Nat, (decimal a).length < (decimal b).length → a < b := by
    intro a b hab
    have ha := (decimal_length_le_iff (decimal_length_pos a)).mp (Nat.le_refl (decimal a).length)
    have hb : ¬ b < 10 ^ (decimal a).length := by
      rw [← decimal_length_le_iff (decimal_length_pos a)]
      omega
    omega
  have hsame : ∀ a b : Nat, (decimal a).length = (decimal b).length → decimal a < decimal b → a < b := by
    intro a b hlen hab
    have := ofDigitChars_lt_of_lt hlen (fun _ => isDigit_of_mem_decimal)
      (fun _ => isDigit_of_mem_decimal) hab
    simpa using this
  unfold textBelow
  rcases Nat.lt_trichotomy (decimal m).length (decimal n).length with hlen | hlen | hlen
  · simp [hlen, hshorter m n hlen]
  · have hiff : decimal m < decimal n ↔ m < n := by
      constructor
      · exact hsame m n hlen
      · intro hmn
        rcases lt_trichotomy (α := List Char) (decimal m) (decimal n) with hlt | heq | hgt
        · exact hlt
        · exact absurd (decimal_injective heq) (by omega)
        · exact absurd (hsame n m hlen.symm hgt) (by omega)
    simp [hlen, hiff]
  · have hless := hshorter n m hlen
    have hnot : ¬ (decimal m).length < (decimal n).length := by omega
    have hne : (decimal m).length ≠ (decimal n).length := by omega
    have hge : ¬ m < n := by omega
    simp [hnot, beq_false_of_ne hne, hge]

theorem integerText_natCast (n : Nat) : integerText (n : Int) = decimal n := rfl

end Scaffold.Decimal
