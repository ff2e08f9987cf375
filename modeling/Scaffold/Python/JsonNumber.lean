import Scaffold.Python.FloatText

namespace Scaffold.Python

open Decimal

-- Numbers in JSON: `(-?(?:0|[1-9][0-9]*))(\.[0-9]+)?([eE][-+]?[0-9]+)?`

def digitsValue (digits : List Char) : Nat := Nat.ofDigitChars 10 digits 0

def leadingDigits (text : List Char) : List Char := text.takeWhile Char.isDigit

def afterDigits (text : List Char) : List Char := text.dropWhile Char.isDigit

-- No digits but a single one follow a leading zero.
def isWhole (digits : List Char) : Bool :=
  digits ≠ [] ∧ (digits.head? = some '0' → digits.length = 1)

def readSign (text : List Char) : Bool × List Char :=
  if text.head? = some '-' then (true, text.tail) else (false, text)

def readExponentSign (text : List Char) : Bool × List Char :=
  if text.head? = some '+' then (false, text.tail) else readSign text

-- The exponent at the end of a number, which may be absent.
def readExponent : List Char → Option Int
  | [] => some 0
  | mark :: rest =>
      if mark = 'e' ∨ mark = 'E' then
        let (negative, digits) := readExponentSign rest
        if digits ≠ [] ∧ digits.all Char.isDigit then
          some (if negative then -(digitsValue digits : Int) else digitsValue digits)
        else none
      else none

-- What follows the whole part of a number that is no integer.
def readReal (negative : Bool) (whole : List Char) : List Char → Option PyFloat
  | [] => none
  | c :: rest =>
      if c = '.' then
        let fraction := leadingDigits rest
        if fraction = [] then none
        else (readExponent (afterDigits rest)).map fun exponent =>
          .ofDecimal negative (digitsValue (whole ++ fraction)) (exponent - fraction.length)
      else (readExponent (c :: rest)).map fun exponent => .ofDecimal negative (digitsValue whole) exponent

def readNumber (text : List Char) : Option (Int ⊕ PyFloat) :=
  let (negative, rest) := readSign text
  let whole := leadingDigits rest
  if ¬ isWhole whole then none
  else if afterDigits rest = [] then
    some (.inl (if negative then -(digitsValue whole : Int) else digitsValue whole))
  else (readReal negative whole (afterDigits rest)).map .inr

section Digits

-- A text that does not go on with a digit.
def Stops (text : List Char) : Prop := ∀ c ∈ text.head?, c.isDigit = false

theorem leadingDigits_append {digits rest : List Char} (h : ∀ c ∈ digits, c.isDigit = true)
    (hrest : Stops rest) :
    leadingDigits (digits ++ rest) = digits := by
  unfold leadingDigits
  rw [List.takeWhile_append_of_pos h]
  cases rest with
  | nil => simp
  | cons c rest => rw [List.takeWhile_cons_of_neg (by simp [hrest c rfl]), List.append_nil]

theorem afterDigits_append {digits rest : List Char} (h : ∀ c ∈ digits, c.isDigit = true)
    (hrest : Stops rest) :
    afterDigits (digits ++ rest) = rest := by
  unfold afterDigits
  rw [List.dropWhile_append_of_pos h]
  cases rest with
  | nil => rfl
  | cons c rest => rw [List.dropWhile_cons_of_neg (by simp [hrest c rfl])]

theorem stops_nil : Stops [] := nofun

theorem stops_cons {c : Char} {rest : List Char} (h : c.isDigit = false) : Stops (c :: rest) := by
  intro d hd
  obtain rfl := Option.some.inj hd
  exact h

theorem digitsValue_zeros (count : Nat) (digits : List Char) :
    digitsValue (List.replicate count '0' ++ digits) = digitsValue digits := by
  rw [digitsValue, Nat.ofDigitChars_append, Nat.ofDigitChars_replicate_zero, Nat.mul_zero, digitsValue]

theorem digitsValue_append_zeros (digits : List Char) (count : Nat) :
    digitsValue (digits ++ List.replicate count '0') = digitsValue digits * 10 ^ count := by
  rw [digitsValue, Nat.ofDigitChars_append, Nat.ofDigitChars_replicate_zero, Nat.mul_comm, digitsValue]

@[simp] theorem digitsValue_decimal (n : Nat) : digitsValue (decimal n) = n := ofDigitChars_decimal n

theorem isDigit_zeros {count : Nat} : ∀ c ∈ List.replicate count '0', c.isDigit = true := by
  intro c hc
  rw [List.eq_of_mem_replicate hc]
  rfl

theorem isDigit_zero : ∀ c ∈ ['0'], c.isDigit = true := by
  intro c hc
  rw [List.mem_singleton.mp hc]
  rfl

theorem isWhole_take {n k : Nat} (hn : 0 < n) (hk : 0 < k) : isWhole ((decimal n).take k) = true := by
  have hlength := decimal_length_pos n
  have hhead : ((decimal n).take k).head? = (decimal n).head? := by
    obtain ⟨k, rfl⟩ := Nat.exists_eq_add_one_of_ne_zero (Nat.ne_of_gt hk)
    cases decimal n <;> rfl
  have hne : (decimal n).take k ≠ [] := by
    intro hnil
    have hsize := congrArg List.length hnil
    rw [List.length_take, List.length_nil] at hsize
    omega
  simp only [isWhole, decide_eq_true_eq]
  exact ⟨hne, fun hzero => absurd (hhead ▸ hzero) (decimal_head_ne_zero hn)⟩

theorem isWhole_decimal (n : Nat) : isWhole (decimal n) = true := by
  rcases Nat.eq_zero_or_pos n with rfl | hn
  · decide
  · have htake := isWhole_take hn (decimal_length_pos n)
    rwa [List.take_length] at htake

end Digits

section Reading

theorem readSign_digit {c : Char} {rest : List Char} (h : c.isDigit = true) :
    readSign (c :: rest) = (false, c :: rest) := by
  have hc : (c :: rest).head? ≠ some '-' := by
    rintro hminus
    obtain rfl := Option.some.inj hminus
    cases h
  rw [readSign, if_neg hc]

theorem readSign_signText (negative : Bool) {c : Char} (rest : List Char) (h : c.isDigit = true) :
    readSign (PyFloat.signText negative ++ c :: rest) = (negative, c :: rest) := by
  cases negative with
  | false => exact readSign_digit h
  | true => rfl

theorem readExponent_exponentText (exponent : Int) :
    readExponent (PyFloat.exponentText exponent) = some exponent := by
  have hpadded : ∀ n :
    Nat, ∃ digits, (if (decimal n).length < 2 then '0' :: decimal n else decimal n) = digits ∧
      digits ≠ [] ∧ digits.all Char.isDigit = true ∧ digitsValue digits = n := by
    intro n
    have hdigits : (decimal n).all Char.isDigit = true :=
      List.all_eq_true.mpr fun _ => isDigit_of_mem_decimal
    split_ifs
    · exact ⟨_, rfl, by simp, by simpa using hdigits,
        digitsValue_zeros 1 (decimal n) |>.trans (digitsValue_decimal n)⟩
    · exact ⟨_, rfl, Nat.toDigits_ne_nil, hdigits, digitsValue_decimal n⟩
  obtain ⟨digits, htext, hne, hdigits, hvalue⟩ := hpadded exponent.natAbs
  have hsign : readExponentSign ((if exponent < 0 then '-' else '+') :: digits) =
    (decide (exponent < 0), digits) := by
    split_ifs with hnegative
    · rw [decide_eq_true hnegative]
      rfl
    · rw [decide_eq_false hnegative]
      rfl
  unfold PyFloat.exponentText
  dsimp only
  rw [htext, readExponent, if_pos (.inl rfl), hsign]
  dsimp only
  rw [if_pos ⟨hne, hdigits⟩, hvalue]
  congr 1
  split_ifs with hnegative
  · have hlt : exponent < 0 := of_decide_eq_true hnegative
    omega
  · have hge : ¬ exponent < 0 := of_decide_eq_false (by simpa using hnegative)
    omega

-- A number whose whole part and what follows are known.
theorem readNumber_parts (negative : Bool) {whole tail : List Char}
    (hdigits : ∀ c ∈ whole, c.isDigit = true)
    (hwhole : isWhole whole = true) (hstops : Stops tail) :
    readNumber (PyFloat.signText negative ++ (whole ++ tail)) =
      if tail = [] then some (.inl (if negative then -(digitsValue whole : Int) else digitsValue whole))
      else (readReal negative whole tail).map .inr := by
  have hne : whole ≠ [] := (by simpa [isWhole] using hwhole : _ ∧ _).1
  obtain ⟨c, rest, rfl⟩ := List.exists_cons_of_ne_nil hne
  have hsign := readSign_signText negative (rest ++ tail) (hdigits c List.mem_cons_self)
  rw [← List.cons_append] at hsign
  unfold readNumber
  rw [hsign]
  dsimp only
  rw [leadingDigits_append hdigits hstops, afterDigits_append hdigits hstops, hwhole]
  rfl

theorem readReal_point (negative : Bool) (whole : List Char) {fraction tail : List Char} {exponent : Int}
    (hdigits : ∀ c ∈ fraction, c.isDigit = true) (hne : fraction ≠ []) (hstops : Stops tail)
    (hexponent : readExponent tail = some exponent) :
    readReal negative whole ('.' :: (fraction ++ tail)) =
      some (.ofDecimal negative (digitsValue (whole ++ fraction)) (exponent - fraction.length)) := by
  rw [readReal, if_pos rfl]
  dsimp only
  rw [leadingDigits_append hdigits hstops, afterDigits_append hdigits hstops, if_neg hne, hexponent,
    Option.map_some]

theorem readReal_exponent (negative : Bool) (whole : List Char) (exponent : Int) :
    readReal negative whole (PyFloat.exponentText exponent) =
      some (.ofDecimal negative (digitsValue whole) exponent) := by
  have hread := readExponent_exponentText exponent
  unfold PyFloat.exponentText at hread ⊢
  dsimp only at hread ⊢
  rw [readReal, if_neg (by decide), hread, Option.map_some]

theorem stops_exponentText (exponent : Int) : Stops (PyFloat.exponentText exponent) := stops_cons rfl

-- A number with a point or an exponent.
theorem readNumber_real (negative : Bool) {whole tail : List Char} {x : PyFloat}
    (hdigits : ∀ c ∈ whole, c.isDigit = true)
    (hwhole : isWhole whole = true) (hstops : Stops tail) (hreal : readReal negative whole tail = some x) :
    readNumber (PyFloat.signText negative ++ (whole ++ tail)) = some (.inr x) := by
  have htail : tail ≠ [] := by
    rintro rfl
    cases hreal
  rw [readNumber_parts negative hdigits hwhole hstops, if_neg htail, hreal, Option.map_some]

variable (negative : Bool) {mantissa : Nat} {exponent : Int}

theorem readNumber_scientific (h : 0 < mantissa) :
    readNumber (PyFloat.signText negative ++ ((decimal mantissa).take 1 ++
      ((if (decimal mantissa).length = 1 then [] else '.' :: (decimal mantissa).drop 1) ++
        PyFloat.exponentText ((decimal mantissa).length + exponent - 1)))) =
      some (.inr (.ofDecimal negative mantissa exponent)) := by
  have hdigits : ∀ c ∈ decimal mantissa, c.isDigit = true := fun c hc => isDigit_of_mem_decimal hc
  have hwhole := isWhole_take h (by decide : 0 < 1)
  have hfirst : ∀ c ∈ (decimal mantissa).take 1, c.isDigit = true :=
    fun c hc => hdigits c (List.mem_of_mem_take hc)
  split_ifs with hlength
  · have htake : (decimal mantissa).take 1 = decimal mantissa :=
      List.take_of_length_le (Nat.le_of_eq hlength)
    refine readNumber_real negative hfirst hwhole (stops_exponentText _) ?_
    rw [List.nil_append, readReal_exponent, htake, digitsValue_decimal, hlength]
    congr 2
    omega
  · have hpositive := decimal_length_pos mantissa
    have hne : (decimal mantissa).drop 1 ≠ [] := by
      intro hnil
      have hsize := congrArg List.length hnil
      rw [List.length_drop, List.length_nil] at hsize
      omega
    refine readNumber_real negative hfirst hwhole (stops_cons rfl) ?_
    rw [List.cons_append, readReal_point negative _ (fun c hc => hdigits c (List.mem_of_mem_drop hc)) hne
      (stops_exponentText _) (readExponent_exponentText _)]
    rw [List.take_append_drop, digitsValue_decimal, List.length_drop]
    congr 2
    omega

theorem readNumber_small (h : (decimal mantissa).length + exponent ≤ 0) :
    readNumber (PyFloat.signText negative ++ ('0' :: '.' ::
      (List.replicate (-((decimal mantissa).length + exponent)).toNat '0' ++ decimal mantissa))) =
      some (.inr (.ofDecimal negative mantissa exponent)) := by
  have hfraction :
    ∀ c ∈ List.replicate (-((decimal mantissa).length + exponent)).toNat '0' ++ decimal mantissa,
      c.isDigit = true := by
    intro c hc
    obtain hc | hc := List.mem_append.mp hc
    · exact isDigit_zeros c hc
    · exact isDigit_of_mem_decimal hc
  have hne : List.replicate (-((decimal mantissa).length + exponent)).toNat '0' ++ decimal mantissa ≠ [] :=
    List.append_ne_nil_of_right_ne_nil _ Nat.toDigits_ne_nil
  refine readNumber_real negative isDigit_zero (by decide) (stops_cons rfl) ?_
  have hread := readReal_point negative ['0'] hfraction hne stops_nil rfl
  rw [List.append_nil] at hread
  have hzeros := digitsValue_zeros ((-((decimal mantissa).length + exponent)).toNat + 1) (decimal mantissa)
  rw [List.replicate_succ, digitsValue_decimal] at hzeros
  refine hread.trans ?_
  rw [List.singleton_append, ← List.cons_append, hzeros, List.length_append, List.length_replicate]
  congr 2
  push_cast
  omega

theorem readNumber_large (hmantissa : 0 < mantissa ∨ (mantissa, exponent) = (0, 0)) (h : 0 ≤ exponent) :
    readNumber (PyFloat.signText negative ++
      (decimal mantissa ++ List.replicate exponent.toNat '0' ++ ['.', '0'])) =
      some (.inr (.ofDecimal negative mantissa exponent)) := by
  have hdigits : ∀ c ∈ decimal mantissa ++ List.replicate exponent.toNat '0', c.isDigit = true := by
    intro c hc
    obtain hc | hc := List.mem_append.mp hc
    · exact isDigit_of_mem_decimal hc
    · exact isDigit_zeros c hc
  have hwhole : isWhole (decimal mantissa ++ List.replicate exponent.toNat '0') = true := by
    obtain hpositive | hzero := hmantissa
    · have hhead := decimal_head_ne_zero hpositive
      have hne : decimal mantissa ≠ [] := Nat.toDigits_ne_nil
      simp only [isWhole, decide_eq_true_eq]
      refine ⟨List.append_ne_nil_of_left_ne_nil hne _, fun hfirst => ?_⟩
      rw [List.head?_append_of_ne_nil _ hne] at hfirst
      exact absurd hfirst hhead
    · obtain ⟨rfl, rfl⟩ := Prod.mk.inj hzero
      decide
  refine readNumber_real negative hdigits hwhole (stops_cons rfl) ?_
  have hread := readReal_point negative (decimal mantissa ++ List.replicate exponent.toNat '0')
    isDigit_zero (by decide) stops_nil rfl
  refine hread.trans ?_
  have hvalue : digitsValue (decimal mantissa ++ List.replicate exponent.toNat '0' ++ ['0']) =
      mantissa * 10 ^ exponent.toNat * 10 := by
    rw [show ['0'] = List.replicate 1 '0' from rfl, digitsValue_append_zeros, digitsValue_append_zeros,
      digitsValue_decimal, Nat.pow_one]
  rw [hvalue, ← PyFloat.ofDecimal_zeros negative mantissa h]
  rfl

theorem readNumber_inside (hmantissa : 0 < mantissa) (hlow : 0 < (decimal mantissa).length + exponent)
    (hhigh : exponent < 0) :
    readNumber (PyFloat.signText negative ++
      ((decimal mantissa).take ((decimal mantissa).length + exponent).toNat ++ '.' :: (decimal mantissa).drop ((decimal mantissa).length + exponent).toNat)) =
      some (.inr (.ofDecimal negative mantissa exponent)) := by
  have hdigits : ∀ c ∈ decimal mantissa, c.isDigit = true := fun c hc => isDigit_of_mem_decimal hc
  have hne : (decimal mantissa).drop ((decimal mantissa).length + exponent).toNat ≠ [] := by
    intro hnil
    have hsize := congrArg List.length hnil
    rw [List.length_drop, List.length_nil] at hsize
    omega
  refine readNumber_real negative (fun c hc => hdigits c (List.mem_of_mem_take hc))
    (isWhole_take hmantissa (by omega)) (stops_cons rfl) ?_
  have hread :=
    readReal_point negative ((decimal mantissa).take ((decimal mantissa).length + exponent).toNat)
    (fun c hc => hdigits c (List.mem_of_mem_drop hc)) hne stops_nil rfl
  rw [List.append_nil] at hread
  refine hread.trans ?_
  rw [List.take_append_drop, digitsValue_decimal, List.length_drop]
  congr 2
  omega

theorem readNumber_layout (hmantissa : 0 < mantissa ∨ (mantissa, exponent) = (0, 0)) :
    readNumber (PyFloat.signText negative ++ PyFloat.layout mantissa exponent) =
      some (.inr (.ofDecimal negative mantissa exponent)) := by
  -- zero is laid out as "0.0"
  have hpositive : (decimal mantissa).length + exponent ≠ 1 ∨ exponent ≠ 0 → 0 < mantissa := by
    intro hcase
    obtain hpos | hzero := hmantissa
    · exact hpos
    · obtain ⟨rfl, rfl⟩ := Prod.mk.inj hzero
      have hone : (decimal 0).length = 1 := rfl
      omega
  unfold PyFloat.layout
  dsimp only
  have hlength := decimal_length_pos mantissa
  by_cases hscientific : (decimal mantissa).length + exponent ≤ -4 ∨
    16 < (decimal mantissa).length + exponent
  · rw [if_pos hscientific, List.append_assoc]
    exact readNumber_scientific negative (hpositive (.inl (by omega)))
  rw [if_neg hscientific]
  split_ifs with hsmall hlarge
  · rw [List.cons_append, List.cons_append]
    exact readNumber_small negative hsmall
  · exact readNumber_large negative hmantissa (by omega)
  · exact readNumber_inside negative (hpositive (.inr (by omega))) (by omega) (by omega)

-- The text of a finite float is read as that float.
omit negative in
theorem readNumber_text {x : PyFloat} (h : x.isfinite = true) : readNumber x.text = some (.inr x) := by
  cases x with
  | nan => cases h
  | infinite negative => cases h
  | finite negative units exact =>
      have hpositive : 0 < (PyFloat.shortest units).1 ∨
        ((PyFloat.shortest units).1, (PyFloat.shortest units).2) = (0, 0) :=
        PyFloat.shortest_pos units
      have hread := readNumber_layout negative hpositive
      rwa [PyFloat.shortest_reads negative exact] at hread

omit negative in
theorem readNumber_integerText (n : Int) : readNumber (integerText n) = some (.inl n) := by
  have hparts : ∀ (negative : Bool) (k : Nat), readNumber (PyFloat.signText negative ++ (decimal k ++ [])) =
      some (.inl (if negative then -(k : Int) else k)) := by
    intro negative k
    rw [readNumber_parts negative (fun c hc => isDigit_of_mem_decimal hc)
      (isWhole_decimal k) stops_nil, if_pos rfl,
      digitsValue_decimal]
  cases n with
  | ofNat k =>
      have hread := hparts false k
      rwa [List.append_nil] at hread
  | negSucc k =>
      have hread := hparts true (k + 1)
      rwa [List.append_nil] at hread

end Reading

section Foreign

variable {b : Char}

-- Neither a blank nor a quotation mark stands in a number.
def isForeign (b : Char) : Bool := b = ' ' ∨ b = '"'

theorem foreign_not_digit (hb : isForeign b = true) {digits : List Char}
    (h : ∀ c ∈ digits, c.isDigit = true) : b ∉ digits := by
  intro hforeign
  have hdigit := h b hforeign
  obtain rfl | rfl := of_decide_eq_true hb
  · cases hdigit
  · cases hdigit

theorem foreign_of_tail {c : Char} {text : List Char} (hhead : text.head? = some c) (hc : c ≠ b)
    (htail : b ∉ text.tail) : b ∉ text := by
  cases text with
  | nil => exact htail
  | cons d rest =>
      obtain rfl := Option.some.inj hhead
      simpa [hc.symm] using htail

-- The marks of a number.
theorem ne_foreign (hb : isForeign b = true) {c : Char} (hc : isForeign c = false) : c ≠ b := by
  rintro rfl
  rw [hb] at hc
  cases hc

theorem foreign_readSign (hb : isForeign b = true) {text : List Char} (h : b ∉ (readSign text).2) :
    b ∉ text := by
  unfold readSign at h
  split_ifs at h with hminus
  · exact foreign_of_tail hminus (ne_foreign hb rfl) h
  · exact h

theorem foreign_readExponentSign (hb : isForeign b = true) {text : List Char}
    (h : b ∉ (readExponentSign text).2) : b ∉ text := by
  unfold readExponentSign at h
  split_ifs at h with hplus
  · exact foreign_of_tail hplus (ne_foreign hb rfl) h
  · exact foreign_readSign hb h

theorem foreign_readExponent (hb : isForeign b = true) {text : List Char} {exponent : Int}
    (h : readExponent text = some exponent) : b ∉ text := by
  cases text with
  | nil => simp
  | cons mark rest =>
      rw [readExponent] at h
      dsimp only at h
      by_cases hmark : mark = 'e' ∨ mark = 'E'
      · by_cases hdigits : (readExponentSign rest).2 ≠ [] ∧
          (readExponentSign rest).2.all Char.isDigit = true
        · have hrest : b ∉ rest := foreign_readExponentSign hb
            (foreign_not_digit hb fun c hc => List.all_eq_true.mp hdigits.2 c hc)
          have hne : mark ≠ b := by
            obtain rfl | rfl := hmark
            · exact ne_foreign hb rfl
            · exact ne_foreign hb rfl
          exact foreign_of_tail rfl hne hrest
        · rw [if_pos hmark, if_neg hdigits] at h
          cases h
      · rw [if_neg hmark] at h
        cases h

theorem foreign_digits (hb : isForeign b = true) {text : List Char} (h : b ∉ afterDigits text) :
    b ∉ text := by
  rw [← List.takeWhile_append_dropWhile (p := Char.isDigit) (l := text), List.mem_append]
  rintro (hforeign | hforeign)
  · exact foreign_not_digit hb (fun c hc => List.all_eq_true.mp List.all_takeWhile c hc) hforeign
  · exact h hforeign

theorem foreign_readReal (hb : isForeign b = true) {negative : Bool} {whole text : List Char} {x : PyFloat}
    (h : readReal negative whole text = some x) : b ∉ text := by
  cases text with
  | nil => simp
  | cons c rest =>
      rw [readReal] at h
      dsimp only at h
      split_ifs at h with hpoint hempty
      · obtain ⟨exponent, hexponent, -⟩ := Option.map_eq_some_iff.mp h
        subst hpoint
        exact foreign_of_tail rfl (ne_foreign hb rfl)
          (foreign_digits hb (foreign_readExponent hb hexponent))
      · obtain ⟨exponent, hexponent, -⟩ := Option.map_eq_some_iff.mp h
        exact foreign_readExponent hb hexponent

theorem foreign_readNumber (hb : isForeign b = true) {text : List Char} {x : Int ⊕ PyFloat}
    (h : readNumber text = some x) : b ∉ text := by
  unfold readNumber at h
  dsimp only at h
  refine foreign_readSign hb (foreign_digits hb ?_)
  by_cases hend : afterDigits (readSign text).2 = []
  · rw [hend]
    simp
  · rw [if_neg hend] at h
    split at h
    · cases h
    · obtain ⟨y, hreal, -⟩ := Option.map_eq_some_iff.mp h
      exact foreign_readReal hb hreal

end Foreign

end Scaffold.Python
