import Scaffold.Decimal

namespace Scaffold.Redis

open Decimal

def maxInteger : Nat := 2 ^ 63 - 1

-- The integers of INCR: canonical decimals of signed 64-bit numbers.
def parseInteger : Text → Option Int
  | ['0'] => some 0
  | '-' :: rest =>
      if isPositiveDecimal rest ∧ Nat.ofDigitChars 10 rest 0 ≤ maxInteger + 1 then
        some (-(Nat.ofDigitChars 10 rest 0 : Int))
      else none
  | text =>
      if isPositiveDecimal text ∧ Nat.ofDigitChars 10 text 0 ≤ maxInteger then
        some (Nat.ofDigitChars 10 text 0 : Int)
      else none

-- A key that holds a string. Times are milliseconds on the clock of the server.
structure StringKey where
  value : Text
  deadline : Option Nat := none
  deriving DecidableEq, Repr

-- What a command finds at a key: a key is gone when its deadline is past.
def live (now : Nat) (key : Option StringKey) : Option StringKey :=
  key.filter fun k => k.deadline.all (now ≤ ·)

def get (now : Nat) (key : Option StringKey) : Option Text :=
  (live now key).map (·.value)

-- INCR keeps the deadline. No integer is the error reply.
def incr (now : Nat) (key : Option StringKey) : Option StringKey × Option Int :=
  match live now key with
  | none => (some { value := integerText 1 }, some 1)
  | some k =>
      match parseInteger k.value with
      | none => (some k, none)
      | some n =>
          if n = maxInteger then (some k, none)
          else (some { k with value := integerText (n + 1) }, some (n + 1))

def expire (now seconds : Nat) (key : Option StringKey) : Option StringKey × Bool :=
  match live now key with
  | none => (none, false)
  | some k => (some { k with deadline := some (now + 1000 * seconds) }, true)

def pttl (now : Nat) (key : Option StringKey) : Int :=
  match live now key with
  | none => -2
  | some k =>
      match k.deadline with
      | none => -1
      | some deadline => deadline - now

-- TTL rounds to the nearest second.
def ttl (now : Nat) (key : Option StringKey) : Int :=
  if pttl now key < 0 then pttl now key else (pttl now key + 500) / 1000

def del (now : Nat) (key : Option StringKey) : Option StringKey × Nat :=
  (none, if (live now key).isSome then 1 else 0)

def setPx (now : Nat) (value : Text) (ms : Nat) : Option StringKey :=
  some { value := value, deadline := some (now + ms) }

-- A counter: the key holds the count `n` in canonical form and goes at `deadline`.
def counter (n deadline : Nat) : StringKey where
  value := decimal n
  deadline := some deadline

theorem parseInteger_decimal {n : Nat} (h : 0 < n) (hmax : n ≤ maxInteger) :
    parseInteger (decimal n) = some (n : Int) := by
  have hpos := isPositiveDecimal_decimal h
  unfold parseInteger
  split
  · rename_i heq
    rw [heq] at hpos
    exact absurd hpos (by decide)
  · rename_i heq
    rw [heq] at hpos
    exact absurd hpos (by simp [isPositiveDecimal])
  · simp [hpos, hmax]

theorem parseInteger_le {text : Text} {value : Int} (h : parseInteger text = some value) :
    value ≤ maxInteger := by
  unfold parseInteger at h
  split at h
  · obtain rfl := Option.some.inj h
    decide
  · split_ifs at h
    obtain rfl := Option.some.inj h
    omega
  · split_ifs at h with hvalue
    obtain rfl := Option.some.inj h
    exact Int.ofNat_le.mpr hvalue.2

section Counter

variable {now n deadline : Nat}

@[simp] theorem counter_value : (counter n deadline).value = decimal n := rfl

@[simp] theorem counter_deadline : (counter n deadline).deadline = some deadline := rfl

theorem live_counter :
    live now (some (counter n deadline)) = if now ≤ deadline then some (counter n deadline) else none := by
  by_cases h : now ≤ deadline <;> simp [live, Option.filter, h]

-- INCR on a counter that is not full.
theorem incr_counter (hn : 0 < n) (hmax : n < maxInteger) (hnow : now ≤ deadline) :
    incr now (some (counter n deadline)) =
      (some (counter (n + 1) deadline), some ((n + 1 : Nat) : Int)) := by
  have hparse := parseInteger_decimal hn (Nat.le_of_lt hmax)
  have hne : ¬ (n : Int) = (maxInteger : Int) := by omega
  simp only [incr, live_counter, hnow, if_true, counter_value, hparse, hne, if_false]
  rfl

theorem incr_full (hnow : now ≤ deadline) :
    incr now (some (counter maxInteger deadline)) = (some (counter maxInteger deadline), none) := by
  have hparse := parseInteger_decimal (n := maxInteger) (by decide) (Nat.le_refl _)
  simp only [incr, live_counter, hnow, if_true, counter_value, hparse]

theorem pttl_counter (hnow : now ≤ deadline) : pttl now (some (counter n deadline)) = deadline - now := by
  simp [pttl, live_counter, hnow]

theorem ttl_of_live_none {key : Option StringKey} (h : live now key = none) : ttl now key = -2 := by
  simp [ttl, pttl, h]

theorem ttl_counter_nonneg (hnow : now ≤ deadline) : 0 ≤ ttl now (some (counter n deadline)) := by
  have hnonneg : 0 ≤ pttl now (some (counter n deadline)) := by
    rw [pttl_counter hnow]
    omega
  rw [ttl, if_neg (by omega)]
  omega

end Counter

end Scaffold.Redis
