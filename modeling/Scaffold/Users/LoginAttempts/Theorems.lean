import Mathlib.Order.Interval.Finset.Nat
import Scaffold.Users.LoginAttempts

namespace Scaffold.Users

open Machine Decimal Redis

section Scripts

variable {now n deadline : Nat} {limiter : LoginLimiter}

theorem maximum_eq : maximum = decimal maxInteger := by decide

theorem length_decimal_le (hmax : n ≤ maxInteger) : (decimal n).length ≤ maxDigits := by
  have hbound : maxInteger < 10 ^ 19 := by decide
  have hlength : (decimal n).length ≤ 19 := (decimal_length_le_iff (by decide)).mpr (by omega)
  exact hlength.trans (by decide)

theorem decodeCount_decimal (hn : 0 < n) (hmax : n ≤ maxInteger) : decodeCount (decimal n) = .ok n := by
  have hne : decimal n ≠ [] := Nat.toDigits_ne_nil
  have hall : (decimal n).all Char.isDigit = true := by
    rw [List.all_eq_true]
    exact fun c => isDigit_of_mem_decimal
  have hlength : ¬ maxDigits < (decimal n).length := Nat.not_lt_of_le (length_decimal_le hmax)
  have hpos : ¬ n ≤ 0 := by omega
  simp [decodeCount, hne, hall, hlength, hpos]

theorem incrementWithTtl_absent (seconds : Nat) {key : Option StringKey} (h : live now key = none) :
    incrementWithTtl now seconds key = (some (counter 1 (now + 1000 * seconds)), .integer 1) := by
  simp only [incrementWithTtl, incr, h, if_true]
  rfl

theorem incrementWithTtl_counter (seconds : Nat) (hn : 0 < n) (hmax : n < maxInteger)
    (hnow : now ≤ deadline) :
    incrementWithTtl now seconds (some (counter n deadline)) =
      (some (counter (n + 1) deadline), .integer (n + 1 : Nat)) := by
  have hne : ¬ ((n + 1 : Nat) : Int) = 1 := by omega
  simp only [incrementWithTtl, incr_counter hn hmax hnow, hne, if_false]

-- The script compares texts; on decimals it compares the numbers.
theorem deleteBelow_decimal {key : Option StringKey} {m : Nat} (hget : Redis.get now key = some (decimal n))
    (hn : 0 < n) (hmax : n ≤ maxInteger) (hm : 0 < m) :
    deleteBelow now (decimal m) key = if n < m then (none, .integer 1) else (key, .integer 0) := by
  have hthreshold := isPositiveDecimal_decimal hm
  have hvalue := isPositiveDecimal_decimal hn
  have hmaximum : textBelow maximum (decimal n) = false := by
    rw [maximum_eq, textBelow_decimal, decide_eq_false_iff_not]
    omega
  have hlive : (live now key).isSome = true := by
    rw [← Option.isSome_map (f := (·.value)),
      show (live now key).map (·.value) = some (decimal n) from hget]
    rfl
  unfold deleteBelow
  simp only [hthreshold, hget, hvalue, hmaximum, textBelow_decimal]
  simp [del, hlive]

theorem deleteBelow_counter (hn : 0 < n) (hmax : n ≤ maxInteger) (hnow : now ≤ deadline) :
    deleteBelow now (decimal limiter.maxFailures) (some (counter n deadline)) =
      if n < limiter.maxFailures then (none, .integer 1) else (some (counter n deadline), .integer 0) := by
  refine deleteBelow_decimal ?_ hn hmax limiter.failures
  rw [Redis.get, live_counter, if_pos hnow]
  rfl

-- Any other text is refused, the count as well as the threshold.
theorem deleteBelow_refused {key : Option StringKey} {raw threshold : Text}
    (hget : Redis.get now key = some raw)
    (h : (¬ ∃ n, 0 < n ∧ n ≤ maxInteger ∧ raw = decimal n) ∨ ¬ ∃ m, 0 < m ∧ threshold = decimal m) :
    ∃ message, deleteBelow now threshold key = (key, .error message) := by
  unfold deleteBelow
  by_cases hthreshold : isPositiveDecimal threshold = true
  · have hraw : ¬ ∃ n, 0 < n ∧ n ≤ maxInteger ∧ raw = decimal n :=
      h.resolve_right fun hnone => hnone (isPositiveDecimal_iff.mp hthreshold)
    have hrefused : ¬ isPositiveDecimal raw = true ∨ textBelow maximum raw = true := by
      by_cases hdecimal : isPositiveDecimal raw = true
      · obtain ⟨n, hn, rfl⟩ := isPositiveDecimal_iff.mp hdecimal
        right
        rw [maximum_eq, textBelow_decimal, decide_eq_true_eq]
        by_contra hle
        exact hraw ⟨n, hn, by omega, rfl⟩
      · exact .inl hdecimal
    rw [if_neg (not_not.mpr hthreshold), hget]
    dsimp only
    rw [if_pos hrefused]
    exact ⟨_, rfl⟩
  · rw [if_pos hthreshold]
    exact ⟨_, rfl⟩

theorem deleteBelow_absent {key : Option StringKey} (h : live now key = none) :
    deleteBelow now (decimal limiter.maxFailures) key = (key, .integer 0) := by
  have hthreshold := isPositiveDecimal_decimal limiter.failures
  simp [deleteBelow, hthreshold, Redis.get, h]

-- What INCR leaves at the key.
theorem incr_live {key : Option StringKey} {k : StringKey} {count : Int}
    (h : incr now key = (some k, some count)) :
    Redis.get now (some k) = some (integerText count) ∧ count ≤ maxInteger := by
  unfold incr at h
  split at h
  · obtain ⟨hk, hcount⟩ := Prod.mk.inj h
    obtain rfl := Option.some.inj hk
    obtain rfl := Option.some.inj hcount
    exact ⟨rfl, by decide⟩
  · rename_i k' hlive
    split at h
    · cases h
    · rename_i value hvalue
      split_ifs at h with hfull
      · cases h
      · obtain ⟨hk, hcount⟩ := Prod.mk.inj h
        obtain rfl := Option.some.inj hk
        obtain rfl := Option.some.inj hcount
        have hdeadline : k'.deadline.all (now ≤ ·) = true := (Option.filter_eq_some_iff.mp hlive).2
        have hbound : value ≤ maxInteger := parseInteger_le hvalue
        refine ⟨?_, by omega⟩
        rw [Redis.get, live, Option.filter_some, if_pos hdeadline]
        rfl

-- How the script, `retry_after` and `record_failure` take a count that INCR has produced.
inductive Compared (limiter : LoginLimiter) (now : Nat) (k : StringKey) (count : Int) : Prop
  | refused (sign : count ≤ 0)
      (script : ∃ message, deleteBelow now (decimal limiter.maxFailures)
        (some k) = (some k, .error message))
      (read : ∃ error, readCount limiter (some k.value) = .raised .retryAfter error)
      (recorded : ∀ s counted, recordCount limiter s (.ok (count, counted)) =
        (s, .raised .recordFailure .incrementResult))
  | below (positive : 0 < count) (bound : count < limiter.maxFailures)
      (script : deleteBelow now (decimal limiter.maxFailures) (some k) = (none, .integer 1))
      (read : readCount limiter (some k.value) = .retryAfter none)
      (recorded : ∀ s counted, ∃ h, recordCount limiter s (.ok (count, counted)) =
        answer s counted (remaining limiter count.toNat h))
  | reached (bound : limiter.maxFailures ≤ count)
      (script : deleteBelow now (decimal limiter.maxFailures) (some k) = (some k, .integer 0))
      (read : readCount limiter (some k.value) = .ttl none)
      (recorded : ∀ s counted, recordCount limiter s (.ok (count, counted)) = (s, .expire counted none))

theorem decodeCount_refused {count : Int} (h : count ≤ 0) :
    ∃ error, decodeCount (integerText count) = .error error := by
  cases count with
  | ofNat n =>
      obtain rfl : n = 0 := by
        have hn : (n : Int) ≤ 0 := h
        omega
      exact ⟨.countNotPositive, rfl⟩
  | negSucc n => exact ⟨.countText, by simp [decodeCount, integerText]⟩

theorem compared_of_incr {key : Option StringKey} {k : StringKey} {count : Int}
    (h : incr now key = (some k, some count)) : Compared limiter now k count := by
  obtain ⟨hget, hmax⟩ := incr_live h
  have hvalue : k.value = integerText count := by
    obtain ⟨k', hlive, hvalue⟩ := Option.map_eq_some_iff.mp hget
    obtain rfl := Option.some.inj (Option.filter_eq_some_iff.mp hlive).1
    exact hvalue
  by_cases hsign : count ≤ 0
  · refine .refused hsign (deleteBelow_refused hget (.inl ?_)) ?_ fun s counted => ?_
    · rintro ⟨n, hn, hmax, htext⟩
      obtain ⟨error, herror⟩ := decodeCount_refused hsign
      rw [htext, decodeCount_decimal hn hmax] at herror
      cases herror
    · obtain ⟨error, herror⟩ := decodeCount_refused hsign
      exact ⟨error, by simp only [readCount, hvalue, herror]⟩
    · exact if_pos hsign
  · obtain ⟨n, rfl⟩ : ∃ n : Nat, count = n := ⟨count.toNat, by omega⟩
    have hn : 0 < n := by omega
    have hscript := deleteBelow_decimal hget hn (Int.ofNat_le.mp hmax) limiter.failures
    have hread : readCount limiter (some k.value) =
        if n < limiter.maxFailures then .retryAfter none else .ttl none := by
      rw [hvalue]
      simp only [readCount, integerText_natCast, decodeCount_decimal hn (Int.ofNat_le.mp hmax)]
    by_cases hbelow : n < limiter.maxFailures
    · rw [if_pos hbelow] at hscript hread
      refine .below (by omega) (by omega) hscript hread fun s counted => ⟨hbelow, ?_⟩
      exact (if_neg hsign).trans (dif_pos hbelow)
    · rw [if_neg hbelow] at hscript hread
      refine .reached (by omega) hscript hread fun s counted => ?_
      exact (if_neg hsign).trans (dif_neg hbelow)

theorem delete_below_numeric {key : Option StringKey} {raw threshold : Text}
    (hget : Redis.get now key = some raw) :
    (∀ n m, 0 < n → n ≤ maxInteger → 0 < m → raw = decimal n → threshold = decimal m →
      deleteBelow now threshold key = if n < m then (none, .integer 1) else (key, .integer 0)) ∧
    ((¬ ∃ n, 0 < n ∧ n ≤ maxInteger ∧ raw = decimal n) ∨ (¬ ∃ m, 0 < m ∧ threshold = decimal m) →
      ∃ message, deleteBelow now threshold key = (key, .error message)) ∧
    -- the calls in Python read the same threshold
    ∀ limiter before k count, incr now before = (some k, some count) → Compared limiter now k count := by
  refine ⟨?_, deleteBelow_refused hget, fun limiter before k count h => compared_of_incr h⟩
  rintro n m hn hmax hm rfl rfl
  exact deleteBelow_decimal hget hn hmax hm

-- The threshold is longer than the count, whose first digit is the greater one.
theorem delete_below_numeric_longer :
    deleteBelow 0 "10000000000000000000".toList (some ⟨"9223372036854775807".toList, some 5000⟩) =
      (none, .integer 1) := by
  have hget : Redis.get 0 (some ⟨"9223372036854775807".toList, some 5000⟩) =
    some "9223372036854775807".toList := rfl
  have hraw : "9223372036854775807".toList = decimal maxInteger := by decide
  have hthreshold : "10000000000000000000".toList = decimal 10000000000000000000 := by decide
  have hnumeric := (delete_below_numeric hget).1 maxInteger _ (by decide) (Nat.le_refl _)
    (by decide) hraw hthreshold
  exact hnumeric.trans (if_pos (by decide))

end Scripts

section Steps

variable {T : Type} [DecidableEq T] {limiter : LoginLimiter} {s : LimiterShared} {l l' : LimiterPhase}

-- A key is a counter of the increments of its lifetime, and its deadline is not far away.
def KeyOk (limiter : LoginLimiter) (s : LimiterShared) : Prop :=
  ∀ k, s.key = some k → 0 < s.increments ∧ s.increments ≤ maxInteger ∧
    ∃ d, k = counter s.increments d ∧
      d ≤ s.now + 1000 * max limiter.failureWindowSeconds limiter.lockSeconds

theorem keyOk_of_none (h : s.key = none) : KeyOk limiter s := by
  intro k hk
  rw [h] at hk
  cases hk

-- A key is stale, or a counter that every command finds.
theorem KeyOk.cases (h : KeyOk limiter s) :
    live s.now s.key = none ∨
      ∃ d, s.key = some (counter s.increments d) ∧ s.now ≤ d ∧ 0 < s.increments ∧
        s.increments ≤ maxInteger := by
  cases hkey : s.key with
  | none => exact .inl rfl
  | some k =>
      obtain ⟨hpos, hmax, d, rfl, -⟩ := h k hkey
      by_cases hnow : s.now ≤ d
      · exact .inr ⟨d, rfl, hnow, hpos, hmax⟩
      · exact .inl (by rw [live_counter, if_neg hnow])

def LimiterPhase.counted : LimiterPhase → Option Counted
  | .increment (some (.ok reply)) => some reply.2
  | .expire counted _ => some counted
  | _ => none

-- What holds of a call at its await, whatever the others do.
def PhaseOk (limiter : LoginLimiter) : LimiterPhase → Prop
  | .get (some (some raw)) => ∃ n, 0 < n ∧ n ≤ maxInteger ∧ raw = decimal n
  | .ttl (some ttl) => ttl = -2 ∨ 0 ≤ ttl
  | .increment (some (.ok (count, c))) => 0 < c.ordinal ∧ count = c.ordinal
  | .expire c _ => limiter.maxFailures ≤ c.ordinal
  | .deleteBelow (some reply) => reply = .integer 0 ∨ reply = .integer 1
  | .raised .retryAfter _ => False
  | .raised .clear _ => False
  | _ => True

-- The answer to the increment with this ordinal.
def expectedStatus (limiter : LoginLimiter) (ordinal : Nat) : LoginFailureStatus :=
  if h : ordinal < limiter.maxFailures then remaining limiter ordinal h else locked limiter

theorem countIncrement_absent (h : live s.now s.key = none) :
    countIncrement limiter s =
      ({ s with
          key := some (counter 1 (s.now + 1000 * limiter.failureWindowSeconds))
          lifetime := s.lifetime + 1
          increments := 1 },
        .ok (1, ⟨s.lifetime + 1, 1⟩)) := by
  unfold countIncrement
  rw [incrementWithTtl_absent _ h, h]

theorem countIncrement_counter {d : Nat} (hkey : s.key = some (counter s.increments d)) (hnow : s.now ≤ d)
    (hpos : 0 < s.increments) (hmax : s.increments < maxInteger) :
    countIncrement limiter s =
      ({ s with key := some (counter (s.increments + 1) d), increments := s.increments + 1 },
        .ok ((s.increments + 1 : Nat), ⟨s.lifetime, s.increments + 1⟩)) := by
  unfold countIncrement
  rw [hkey, incrementWithTtl_counter _ hpos hmax hnow, live_counter, if_pos hnow]

-- INCR refuses to count any further.
theorem countIncrement_full {d : Nat} (hkey : s.key = some (counter maxInteger d)) (hnow : s.now ≤ d) :
    countIncrement limiter s = (s, .error "increment or decrement would overflow") := by
  have hscript : incrementWithTtl s.now limiter.failureWindowSeconds s.key =
      (s.key, .error "increment or decrement would overflow") := by
    rw [hkey]
    unfold incrementWithTtl
    rw [incr_full hnow]
  unfold countIncrement
  rw [hscript]

-- Everything a step of a call can do.
inductive LimiterEffect (limiter : LoginLimiter) (s : LimiterShared) (l : LimiterPhase) : LimiterNext → Prop
  | moved (l' : LimiterPhase) (ok : PhaseOk limiter l')
      (counted : l'.counted = none ∨ l'.counted = l.counted) : LimiterEffect limiter s l (s, l')
  | begun (absent : live s.now s.key = none) :
      LimiterEffect limiter s l
        ({ s with
            key := some (counter 1 (s.now + 1000 * limiter.failureWindowSeconds))
            lifetime := s.lifetime + 1
            increments := 1 },
          .increment (some (.ok (1, ⟨s.lifetime + 1, 1⟩))))
  | counted (d : Nat) (key : s.key = some (counter s.increments d)) (bound : s.increments < maxInteger) :
      LimiterEffect limiter s l
        ({ s with key := some (counter (s.increments + 1) d), increments := s.increments + 1 },
          .increment (some (.ok ((s.increments + 1 : Nat), ⟨s.lifetime, s.increments + 1⟩))))
  | extended (d : Nat) (c : Counted) (reply : Option Bool) (key : s.key = some (counter s.increments d))
      (phase : l = .expire c reply) :
      LimiterEffect limiter s l
        ({ s with key := some (counter s.increments (s.now + 1000 * limiter.lockSeconds)) },
          .expire c (some true))
  | vanished (c : Counted) (reply : Option Bool) (absent : live s.now s.key = none)
      (phase : l = .expire c reply) :
      LimiterEffect limiter s l ({ s with key := none }, .expire c (some false))
  | deleted (below : s.increments < limiter.maxFailures) :
      LimiterEffect limiter s l ({ s with key := none }, .deleteBelow (some (.integer 1)))
  | answered (c : Counted) (counted : l.counted = some c) :
      LimiterEffect limiter s l
        ({ s with answers := s.answers ++ [⟨c, expectedStatus limiter c.ordinal⟩] },
          .recorded (expectedStatus limiter c.ordinal))

theorem executeCommand_effect {next : LimiterNext} (hkey : KeyOk limiter s) (hl : PhaseOk limiter l)
    (h : executeCommand limiter s l = some next) : LimiterEffect limiter s l next := by
  unfold executeCommand at h
  split at h
  · obtain rfl := Option.some.inj h
    refine .moved _ ?_ (.inl rfl)
    rcases hkey.cases with habsent | ⟨d, hcounter, hnow, hpos, hmax⟩
    · simp [Redis.get, habsent, PhaseOk]
    · simp only [Redis.get, hcounter, live_counter, hnow, if_true, Option.map_some, counter_value]
      exact ⟨_, hpos, hmax, rfl⟩
  · obtain rfl := Option.some.inj h
    refine .moved _ ?_ (.inl rfl)
    rcases hkey.cases with habsent | ⟨d, hcounter, hnow, -, -⟩
    · exact .inl (ttl_of_live_none habsent)
    · rw [hcounter]
      exact .inr (ttl_counter_nonneg hnow)
  · rcases hkey.cases with habsent | ⟨d, hcounter, hnow, hpos, hmax⟩
    · rw [countIncrement_absent habsent] at h
      obtain rfl := Option.some.inj h
      exact .begun habsent
    · by_cases hfull : s.increments = maxInteger
      · rw [hfull] at hcounter
        rw [countIncrement_full hcounter hnow] at h
        obtain rfl := Option.some.inj h
        exact .moved _ trivial (.inl rfl)
      · have hless : s.increments < maxInteger := by omega
        rw [countIncrement_counter hcounter hnow hpos hless] at h
        obtain rfl := Option.some.inj h
        exact .counted d hcounter hless
  · unfold Redis.expire at h
    rcases hkey.cases with habsent | ⟨d, hcounter, hnow, -, -⟩
    · rw [habsent] at h
      obtain rfl := Option.some.inj h
      exact .vanished _ _ habsent rfl
    · have hlive : live s.now s.key = some (counter s.increments d) := by
        rw [hcounter, live_counter, if_pos hnow]
      rw [hlive] at h
      obtain rfl := Option.some.inj h
      exact .extended d _ _ hcounter rfl
  · rcases hkey.cases with habsent | ⟨d, hcounter, hnow, hpos, hmax⟩
    · rw [deleteBelow_absent habsent] at h
      obtain rfl := Option.some.inj h
      exact .moved _ (.inl rfl) (.inl rfl)
    · by_cases hbelow : s.increments < limiter.maxFailures
      · rw [hcounter, deleteBelow_counter hpos hmax hnow, if_pos hbelow] at h
        obtain rfl := Option.some.inj h
        exact .deleted hbelow
      · rw [hcounter, deleteBelow_counter hpos hmax hnow, if_neg hbelow, ← hcounter] at h
        obtain rfl := Option.some.inj h
        exact .moved _ (.inl rfl) (.inl rfl)
  · cases h

theorem processReply_effect {next : LimiterNext} (hl : PhaseOk limiter l)
    (h : processReply limiter s l = some next) : LimiterEffect limiter s l next := by
  unfold processReply at h
  split at h
  · rename_i raw
    obtain rfl := Option.some.inj h
    refine .moved _ ?_ ?_
    · cases raw with
      | none => trivial
      | some raw =>
          obtain ⟨n, hn, hmax, rfl⟩ := hl
          simp only [readCount, decodeCount_decimal hn hmax]
          split <;> trivial
    · left
      unfold readCount
      split
      · rfl
      · split
        · rfl
        · split <;> rfl
  · rename_i ttl
    obtain rfl := Option.some.inj h
    have hl : ttl = -2 ∨ 0 ≤ ttl := hl
    have hne : ttl ≠ -1 := by omega
    refine .moved _ ?_ ?_
    · simp only [readTtl, hne, if_false]
      split <;> trivial
    · left
      simp only [readTtl, hne, if_false]
      split <;> rfl
  · rename_i reply
    obtain rfl := Option.some.inj h
    cases reply with
    | error message => exact .moved _ trivial (.inl rfl)
    | ok reply =>
        obtain ⟨count, c⟩ := reply
        obtain ⟨hpos, rfl⟩ := hl
        have hnot : ¬ (c.ordinal : Int) ≤ 0 := by omega
        simp only [recordCount, hnot, if_false, Int.toNat_natCast]
        split
        · rename_i hbelow
          have hstatus : expectedStatus limiter c.ordinal = remaining limiter c.ordinal hbelow := by
            rw [expectedStatus, dif_pos hbelow]
          simp only [answer, ← hstatus]
          exact .answered c rfl
        · rename_i hnot
          exact .moved _ (Nat.le_of_not_lt hnot) (.inr rfl)
  · rename_i c applied
    have hmax : limiter.maxFailures ≤ c.ordinal := hl
    split at h
    · obtain rfl := Option.some.inj h
      have hstatus : expectedStatus limiter c.ordinal = locked limiter := by
        rw [expectedStatus, dif_neg (by omega)]
      simp only [answer, ← hstatus]
      exact .answered c rfl
    · obtain rfl := Option.some.inj h
      exact .moved _ trivial (.inl rfl)
  · rename_i reply
    obtain rfl := Option.some.inj h
    rcases hl with rfl | rfl
    · exact .moved _ trivial (.inl rfl)
    · exact .moved _ trivial (.inl rfl)
  · cases h

omit [DecidableEq T] in
theorem limiterStep_effect {t : T} {act : LimiterAct} {next : LimiterNext} (hkey : KeyOk limiter s)
    (hl : PhaseOk limiter l) (h : limiterStep limiter t s l act = some next) :
    LimiterEffect limiter s l next := by
  cases act with
  | call call =>
      obtain ⟨-, rfl⟩ := guarded h
      cases call <;> exact .moved _ trivial (.inl rfl)
  | execute => exact executeCommand_effect hkey hl h
  | reply => exact processReply_effect hl h

end Steps

section Runs

variable {T : Type} [DecidableEq T] {limiter : LoginLimiter} {p q : LimiterPool T}

def Issued (s : LimiterShared) (c : Counted) : Prop :=
  0 < c.ordinal ∧ c.lifetime ≤ s.lifetime ∧ (c.lifetime = s.lifetime → c.ordinal ≤ s.increments)

-- Every increment is held by one call at most, and is answered once.
structure LimiterInv (limiter : LoginLimiter) (p : LimiterPool T) : Prop where
  key : KeyOk limiter p.shared
  phase : ∀ t, PhaseOk limiter (p.loc t)
  held : ∀ t c, (p.loc t).counted = some c → Issued p.shared c ∧ c ∉ p.shared.answers.map (·.counted)
  apart : ∀ t u c, (p.loc t).counted = some c → (p.loc u).counted = some c → t = u
  answered : ∀ a ∈ p.shared.answers,
    Issued p.shared a.counted ∧ a.status = expectedStatus limiter a.counted.ordinal
  once : (p.shared.answers.map (·.counted)).Nodup

omit [DecidableEq T] in
theorem limiterInv_init : LimiterInv limiter (.init T) := by
  refine ⟨?_, ?_, ?_, ?_, ?_, ?_⟩
  · exact keyOk_of_none rfl
  · intro t
    trivial
  · intro t c hc
    cases hc
  · intro t u c hc
    cases hc
  · intro a ha
    cases ha
  · exact List.nodup_nil

-- A step that answers nothing: the call keeps its increment, drops it or takes a new one.
theorem LimiterInv.move {i : T} {s : LimiterShared} {l : LimiterPhase} (hi : LimiterInv limiter p)
    (hkey : KeyOk limiter s) (hphase : PhaseOk limiter l) (hissued : ∀ c, Issued p.shared c → Issued s c)
    (hanswers : s.answers = p.shared.answers)
    (hcounted : ∀ c, l.counted = some c →
      (p.loc i).counted = some c ∨ (Issued s c ∧ ¬ Issued p.shared c)) :
    LimiterInv limiter (p.move i s l) := by
  -- what a call holds afterwards, it held before or nobody did
  have hloc : ∀ t c, ((p.move i s l).loc t).counted = some c →
      (p.loc t).counted = some c ∨ (t = i ∧ Issued s c ∧ ¬ Issued p.shared c) := by
    intro t c hc
    by_cases ht : t = i
    · subst ht
      rw [Pool.move_loc_self] at hc
      rcases hcounted c hc with h | h
      · exact .inl h
      · exact .inr ⟨rfl, h⟩
    · rw [Pool.move_loc_ne _ _ _ ht] at hc
      exact .inl hc
  refine ⟨hkey, ?_, ?_, ?_, ?_, ?_⟩
  · exact Pool.forall_loc_move (P := fun _ phase => PhaseOk limiter phase) hphase
      fun t _ => hi.phase t
  · intro t c hc
    rw [Pool.move_shared, hanswers]
    rcases hloc t c hc with h | ⟨-, hnew, hold⟩
    · exact ⟨hissued c (hi.held t c h).1, (hi.held t c h).2⟩
    · refine ⟨hnew, fun hmem => ?_⟩
      obtain ⟨a, ha, rfl⟩ := List.mem_map.mp hmem
      exact hold (hi.answered a ha).1
  · intro t u c ht hu
    rcases hloc t c ht with hbefore | ⟨hti, -, hold⟩
    · rcases hloc u c hu with hbefore' | ⟨-, -, hold'⟩
      · exact hi.apart t u c hbefore hbefore'
      · exact absurd (hi.held t c hbefore).1 hold'
    · rcases hloc u c hu with hbefore' | ⟨hui, -, -⟩
      · exact absurd (hi.held u c hbefore').1 hold
      · rw [hti, hui]
  · intro a ha
    rw [Pool.move_shared, hanswers] at ha
    exact ⟨hissued _ (hi.answered a ha).1, (hi.answered a ha).2⟩
  · rw [Pool.move_shared, hanswers]
    exact hi.once

theorem LimiterInv.answer {i : T} {c : Counted} {l : LimiterPhase} (hi : LimiterInv limiter p)
    (hc : (p.loc i).counted = some c) (hl : l.counted = none) (hphase : PhaseOk limiter l) :
    LimiterInv limiter (p.move i
      { p.shared with answers := p.shared.answers ++ [⟨c, expectedStatus limiter c.ordinal⟩] } l) := by
  have hloc : ∀ t c', ((p.move i
      { p.shared with answers := p.shared.answers ++ [⟨c,
        expectedStatus limiter c.ordinal⟩] } l).loc t).counted =
        some c' → t ≠ i ∧ (p.loc t).counted = some c' := by
    intro t c' hc'
    by_cases ht : t = i
    · subst ht
      rw [Pool.move_loc_self, hl] at hc'
      cases hc'
    · rw [Pool.move_loc_ne _ _ _ ht] at hc'
      exact ⟨ht, hc'⟩
  refine ⟨hi.key, ?_, ?_, ?_, ?_, ?_⟩
  · exact Pool.forall_loc_move (P := fun _ phase => PhaseOk limiter phase) hphase
      fun t _ => hi.phase t
  · intro t c' hc'
    obtain ⟨hne, hbefore⟩ := hloc t c' hc'
    refine ⟨(hi.held t c' hbefore).1, fun hmem => ?_⟩
    simp only [Pool.move_shared, List.map_append, List.mem_append, List.map_cons, List.map_nil,
      List.mem_singleton] at hmem
    rcases hmem with hmem | heq
    · exact (hi.held t c' hbefore).2 hmem
    · exact hne (hi.apart t i c' hbefore (heq ▸ hc))
  · intro t u c' ht hu
    exact hi.apart t u c' (hloc t c' ht).2 (hloc u c' hu).2
  · intro a ha
    rcases List.mem_append.mp ha with ha | ha
    · exact hi.answered a ha
    · obtain rfl := List.mem_singleton.mp ha
      exact ⟨(hi.held i c hc).1, rfl⟩
  · simp only [Pool.move_shared, List.map_append, List.map_cons, List.map_nil]
    refine List.nodup_append.mpr ⟨hi.once, List.nodup_singleton _, ?_⟩
    intro a ha b hb heq
    rw [heq, List.mem_singleton.mp hb] at ha
    exact (hi.held i c hc).2 ha

theorem limiterInv_effect {i : T} {next : LimiterNext} (hi : LimiterInv limiter p)
    (h : LimiterEffect limiter p.shared (p.loc i) next) : LimiterInv limiter (p.move i next.1 next.2) := by
  have hkept : ∀ {l : LimiterPhase}, (l.counted = none ∨ l.counted = (p.loc i).counted) →
    ∀ {s : LimiterShared} c,
      l.counted = some c → (p.loc i).counted = some c ∨ (Issued s c ∧ ¬ Issued p.shared c) := by
    intro l hl s c hc
    rcases hl with hl | hl
    · rw [hl] at hc
      cases hc
    · exact .inl (hl ▸ hc)
  cases h with
  | moved l' ok counted => exact hi.move hi.key ok (fun _ => id) rfl (hkept counted)
  | begun absent =>
      refine hi.move ?_ ⟨Nat.one_pos, rfl⟩ ?_ rfl ?_
      · intro k hk
        obtain rfl := Option.some.inj hk
        refine ⟨Nat.one_pos, (by decide : 1 ≤ maxInteger), _, rfl, ?_⟩
        have hmax := Nat.le_max_left limiter.failureWindowSeconds limiter.lockSeconds
        dsimp only
        omega
      · rintro c ⟨hpos, hlife, -⟩
        refine ⟨hpos, Nat.le_succ_of_le hlife, fun heq => ?_⟩
        dsimp only at heq
        omega
      · intro c hc
        obtain rfl := Option.some.inj hc
        refine .inr ⟨⟨Nat.one_pos, Nat.le_refl _, fun _ => Nat.le_refl _⟩, fun hold => ?_⟩
        have := hold.2.1
        dsimp only at this
        omega
  | counted d key bound =>
      obtain ⟨hpos, hmax, d', hd', hnear⟩ := hi.key _ key
      have hd : d = d' := Option.some.inj (congrArg StringKey.deadline hd')
      refine hi.move ?_ ⟨Nat.succ_pos _, rfl⟩ ?_ rfl ?_
      · intro k hk
        obtain rfl := Option.some.inj hk
        exact ⟨Nat.succ_pos _, bound, d, rfl, hd ▸ hnear⟩
      · rintro c ⟨hcpos, hlife, hlast⟩
        exact ⟨hcpos, hlife, fun heq => Nat.le_succ_of_le (hlast heq)⟩
      · intro c hc
        obtain rfl := Option.some.inj hc
        refine .inr ⟨⟨Nat.succ_pos _, Nat.le_refl _, fun _ => Nat.le_refl _⟩, fun hold => ?_⟩
        have := hold.2.2 rfl
        dsimp only at this
        omega
  | extended d c reply key phase =>
      obtain ⟨hpos, hmax, -⟩ := hi.key _ key
      have hphase := hi.phase i
      rw [phase] at hphase
      refine hi.move ?_ hphase (fun _ => id) rfl (hkept (.inr (by rw [phase]; rfl)))
      intro k hk
      obtain rfl := Option.some.inj hk
      refine ⟨hpos, hmax, _, rfl, ?_⟩
      have := Nat.le_max_right limiter.failureWindowSeconds limiter.lockSeconds
      dsimp only
      omega
  | vanished c reply absent phase =>
      have hphase := hi.phase i
      rw [phase] at hphase
      exact hi.move (keyOk_of_none rfl) hphase (fun _ => id) rfl (hkept (.inr (by rw [phase]; rfl)))
  | deleted below =>
      exact hi.move (keyOk_of_none rfl) (.inr rfl) (fun _ => id) rfl (hkept (.inl rfl))
  | answered c counted => exact hi.answer counted rfl trivial

theorem limiterInv_step (p : LimiterPool T) (act : (T × LimiterAct) ⊕ LimiterEvent) (q : LimiterPool T)
    (hi : LimiterInv limiter p) (h : limiterPoolStep limiter p act = some q) : LimiterInv limiter q := by
  cases act with
  | inl act =>
      obtain ⟨t, act⟩ := act
      obtain ⟨s, l, hl, rfl⟩ := Pool.step_task h
      exact limiterInv_effect hi (limiterStep_effect hi.key (hi.phase t) hl)
  | inr event =>
      obtain ⟨s, hs, rfl⟩ := Pool.step_env h
      cases event with
      | tick elapsed =>
          obtain rfl := Option.some.inj hs
          refine ⟨?_, hi.phase, hi.held, hi.apart, hi.answered, hi.once⟩
          intro k hk
          obtain ⟨hpos, hmax, d, rfl, hd⟩ := hi.key k hk
          have hlater : p.shared.now ≤ p.shared.now + elapsed := Nat.le_add_right _ _
          exact ⟨hpos, hmax, d, rfl, hd.trans (Nat.add_le_add_right hlater _)⟩
      | drop =>
          simp only [limiterEvent] at hs
          split at hs
          · cases hs
          · obtain ⟨-, rfl⟩ := guarded hs
            exact ⟨keyOk_of_none rfl, hi.phase, hi.held, hi.apart, hi.answered, hi.once⟩

omit [DecidableEq T] in
-- The ordinals of the answers without a lock are different numbers below the threshold.
theorem unlocked_answers (hi : LimiterInv limiter p) (lifetime : Nat) :
    (p.shared.answers.filter fun a =>
      a.counted.lifetime = lifetime ∧
        a.status.retryAfterSeconds = none).length ≤ limiter.maxFailures - 1 := by
  let unlocked := p.shared.answers.filter fun a =>
    a.counted.lifetime = lifetime ∧ a.status.retryAfterSeconds = none
  have hmem : ∀ a ∈ unlocked,
      a ∈ p.shared.answers ∧ a.counted.lifetime = lifetime ∧ a.status.retryAfterSeconds = none := by
    intro a ha
    simpa [unlocked, List.mem_filter] using ha
  have hcounted : (unlocked.map (·.counted)).Nodup := hi.once.sublist (List.filter_sublist.map _)
  have hordinals : (unlocked.map (·.counted.ordinal)).Nodup := by
    rw [List.nodup_map_iff_inj_on (List.Nodup.of_map _ hcounted)]
    intro a ha b hb heq
    refine List.inj_on_of_nodup_map hcounted ha hb ?_
    have hlife := (hmem a ha).2.1.trans (hmem b hb).2.1.symm
    cases hca : a.counted with
    | mk lifetimeA ordinalA =>
        cases hcb : b.counted with
        | mk lifetimeB ordinalB =>
            rw [hca, hcb] at hlife heq
            simp only at hlife heq
            rw [hlife, heq]
  have hrange : (unlocked.map (·.counted.ordinal)).toFinset ⊆ Finset.Ico 1 limiter.maxFailures := by
    intro n hn
    obtain ⟨a, ha, rfl⟩ := List.mem_map.mp (List.mem_toFinset.mp hn)
    obtain ⟨hanswer, -, hnone⟩ := hmem a ha
    obtain ⟨⟨hpos, -, -⟩, hstatus⟩ := hi.answered a hanswer
    rw [Finset.mem_Ico]
    refine ⟨hpos, ?_⟩
    by_contra hnot
    rw [hstatus, expectedStatus, dif_neg hnot] at hnone
    cases hnone
  have hcard := Finset.card_le_card hrange
  rw [List.toFinset_card_of_nodup hordinals, List.length_map, Nat.card_Ico] at hcard
  exact hcard

theorem login_counter_invariant (hp : Reaches (limiterPoolStep limiter) (.init T) p) :
    -- the key is a canonical count with a finite time to live
    (∀ key, p.shared.key = some key → ∃ n d, 1 ≤ n ∧ n ≤ 2 ^ 63 - 1 ∧ key.value = decimal n ∧
      key.deadline = some d ∧
      d - p.shared.now ≤ 1000 * max limiter.failureWindowSeconds limiter.lockSeconds) ∧
    -- so no call finds a broken key
    (∀ t error, p.loc t ≠ .raised .retryAfter error) ∧
    (∀ t message, p.loc t ≠ .deleteBelow (some (.error message))) ∧
    (∀ t error, p.loc t ≠ .raised .clear error) ∧
    -- the answer to the k-th increment of a lifetime
    (∀ a ∈ p.shared.answers,
      (a.counted.ordinal < limiter.maxFailures →
        a.status.remainingAttempts = limiter.maxFailures - a.counted.ordinal ∧
          a.status.retryAfterSeconds = none) ∧
      (limiter.maxFailures ≤ a.counted.ordinal →
        a.status.remainingAttempts = 0 ∧ a.status.retryAfterSeconds = some limiter.lockSeconds)) ∧
    (p.shared.answers.map (·.counted)).Nodup ∧
    (∀ lifetime, (p.shared.answers.filter fun a =>
      a.counted.lifetime = lifetime ∧ a.status.retryAfterSeconds = none).length ≤ limiter.maxFailures - 1) ∧
    -- `clear` removes a count below the threshold and no other
    (∀ t reply key n q, p.loc t = .deleteBelow reply → live p.shared.now p.shared.key = some key →
      key.value = decimal n → limiterPoolStep limiter p (.inl (t, .execute)) = some q →
      (limiter.maxFailures ≤ n → q.shared.key = p.shared.key) ∧
        (n < limiter.maxFailures → q.shared.key = none)) := by
  have hi : LimiterInv limiter p := hp.invariant limiterInv_step limiterInv_init
  refine ⟨?_, ?_, ?_, ?_, ?_, hi.once, unlocked_answers hi, ?_⟩
  · intro key hkey
    obtain ⟨hpos, hmax, d, rfl, hnear⟩ := hi.key key hkey
    exact ⟨p.shared.increments, d, hpos, hmax, rfl, rfl, by omega⟩
  · intro t error hloc
    have hphase := hi.phase t
    rw [hloc] at hphase
    exact hphase
  · intro t message hloc
    have hphase := hi.phase t
    rw [hloc] at hphase
    rcases hphase with h | h <;> cases h
  · intro t error hloc
    have hphase := hi.phase t
    rw [hloc] at hphase
    exact hphase
  · intro a ha
    obtain ⟨-, hstatus⟩ := hi.answered a ha
    rw [hstatus]
    constructor
    · intro hbelow
      rw [expectedStatus, dif_pos hbelow]
      exact ⟨rfl, rfl⟩
    · intro hmax
      rw [expectedStatus, dif_neg (by omega)]
      exact ⟨rfl, rfl⟩
  · intro t reply key n q hloc hlive hvalue hstep
    obtain ⟨s, l, hl, rfl⟩ := Pool.step_task hstep
    rw [hloc] at hl
    rcases hi.key.cases with habsent | ⟨d, hcounter, hnow, hpos, hmax⟩
    · rw [habsent] at hlive
      cases hlive
    · rw [hcounter, live_counter, if_pos hnow] at hlive
      obtain rfl := Option.some.inj hlive
      have hn : p.shared.increments = n := decimal_injective hvalue
      simp only [limiterStep, executeCommand, hcounter, deleteBelow_counter hpos hmax hnow] at hl
      constructor
      · intro hlocked
        rw [if_neg (by omega)] at hl
        obtain ⟨rfl, rfl⟩ := Prod.mk.inj (Option.some.inj hl)
        exact hcounter.symm
      · intro hbelow
        rw [if_pos (by omega)] at hl
        obtain ⟨rfl, rfl⟩ := Prod.mk.inj (Option.some.inj hl)
        rfl

-- A lock that an EXPIRE at the time `start` has set.
def LockedSince (limiter : LoginLimiter) (start : Nat) (s : LimiterShared) : Prop :=
  start ≤ s.now ∧ limiter.maxFailures ≤ s.increments ∧
    ∃ d, s.key = some (counter s.increments d) ∧ start + 1000 * limiter.lockSeconds ≤ d

theorem lockedSince_effect {start : Nat} {s : LimiterShared} {l : LimiterPhase} {next : LimiterNext}
    (hlock : LockedSince limiter start s) (hnow : s.now < start + 1000 * limiter.lockSeconds)
    (h : LimiterEffect limiter s l next) : LockedSince limiter start next.1 := by
  obtain ⟨hstart, hmax, d, hkey, hd⟩ := hlock
  have hlive : live s.now s.key ≠ none := by
    rw [hkey, live_counter, if_pos (by omega)]
    simp
  cases h with
  | moved l' ok counted => exact ⟨hstart, hmax, d, hkey, hd⟩
  | begun absent => exact absurd absent hlive
  | counted d' key bound =>
      rw [hkey] at key
      have hsame : d = d' := Option.some.inj (congrArg StringKey.deadline (Option.some.inj key))
      exact ⟨hstart, Nat.le_succ_of_le hmax, d', rfl, hsame ▸ hd⟩
  | extended d' c reply key phase =>
      exact ⟨hstart, hmax, _, rfl, Nat.add_le_add_right hstart _⟩
  | vanished c reply absent phase => exact absurd absent hlive
  | deleted below => exact absurd below (by omega)
  | answered c counted => exact ⟨hstart, hmax, d, hkey, hd⟩

-- What a call of `retry_after` has read since the lock was set.
def ReadLocked (limiter : LoginLimiter) : LimiterPhase → Prop
  | .get (some raw) => ∃ n, limiter.maxFailures ≤ n ∧ n ≤ maxInteger ∧ raw = some (decimal n)
  | .ttl (some ttl) => 0 ≤ ttl
  | .retryAfter none => False
  | .raised .retryAfter _ => False
  | _ => True

omit [DecidableEq T] in
theorem readLocked_step {t : T} {start : Nat} {s s' : LimiterShared} {l l' : LimiterPhase}
    {act : LimiterAct}
    (hcounter : KeyOk limiter s) (hlock : LockedSince limiter start s)
    (hnow : s.now < start + 1000 * limiter.lockSeconds) (hread : ReadLocked limiter l)
    (h : limiterStep limiter t s l act = some (s', l')) :
    ReadLocked limiter l' := by
  obtain ⟨-, hmax, d, hkey, hd⟩ := hlock
  have hlive : s.now ≤ d := by omega
  have hfailures := limiter.failures
  cases act with
  | call call =>
      obtain ⟨-, heq⟩ := guarded h
      obtain ⟨rfl, rfl⟩ := Prod.mk.inj heq
      cases call <;> trivial
  | execute =>
      simp only [limiterStep] at h
      unfold executeCommand at h
      split at h
      · obtain ⟨rfl, rfl⟩ := Prod.mk.inj (Option.some.inj h)
        refine ⟨s.increments, hmax, (hcounter _ hkey).2.1, ?_⟩
        rw [hkey, Redis.get, live_counter, if_pos hlive]
        rfl
      · obtain ⟨rfl, rfl⟩ := Prod.mk.inj (Option.some.inj h)
        have hnonneg : 0 ≤ Redis.ttl s.now s.key := by
          rw [hkey]
          exact ttl_counter_nonneg hlive
        exact hnonneg
      · obtain ⟨rfl, rfl⟩ := Prod.mk.inj (Option.some.inj h)
        trivial
      · obtain ⟨rfl, rfl⟩ := Prod.mk.inj (Option.some.inj h)
        trivial
      · obtain ⟨rfl, rfl⟩ := Prod.mk.inj (Option.some.inj h)
        trivial
      · cases h
  | reply =>
      simp only [limiterStep] at h
      unfold processReply at h
      split at h
      · obtain ⟨rfl, rfl⟩ := Prod.mk.inj (Option.some.inj h)
        obtain ⟨n, hn, hbound, rfl⟩ := hread
        have hnot : ¬ n < limiter.maxFailures := by omega
        have hpos : 0 < n := by omega
        simp only [readCount, decodeCount_decimal hpos hbound, hnot, if_false]
        trivial
      · rename_i ttl
        obtain ⟨rfl, rfl⟩ := Prod.mk.inj (Option.some.inj h)
        have hread : 0 ≤ ttl := hread
        simp only [readTtl, if_neg (by omega : ¬ ttl = -2), if_neg (by omega : ¬ ttl = -1)]
        trivial
      · rename_i reply
        have hnext := Option.some.inj h
        cases reply with
        | error message =>
            obtain ⟨rfl, rfl⟩ := Prod.mk.inj hnext
            trivial
        | ok reply =>
            simp only [recordCount] at hnext
            split at hnext
            · obtain ⟨rfl, rfl⟩ := Prod.mk.inj hnext
              trivial
            · split at hnext
              · obtain ⟨rfl, rfl⟩ := Prod.mk.inj hnext
                trivial
              · obtain ⟨rfl, rfl⟩ := Prod.mk.inj hnext
                trivial
      · split at h
        · obtain ⟨rfl, rfl⟩ := Prod.mk.inj (Option.some.inj h)
          trivial
        · obtain ⟨rfl, rfl⟩ := Prod.mk.inj (Option.some.inj h)
          trivial
      · rename_i reply
        obtain ⟨rfl, rfl⟩ := Prod.mk.inj (Option.some.inj h)
        cases reply with
        | error message => trivial
        | integer result =>
            simp only [processClear]
            split <;> trivial
      · cases h

theorem now_le_step {act : (T × LimiterAct) ⊕ LimiterEvent} (hi : LimiterInv limiter p)
    (h : limiterPoolStep limiter p act = some q) : p.shared.now ≤ q.shared.now := by
  cases act with
  | inl act =>
      obtain ⟨t, act⟩ := act
      obtain ⟨s, l, hl, rfl⟩ := Pool.step_task h
      have heffect := limiterStep_effect hi.key (hi.phase t) hl
      cases heffect <;> exact Nat.le_refl _
  | inr event =>
      obtain ⟨s, hs, rfl⟩ := Pool.step_env h
      cases event with
      | tick elapsed =>
          obtain rfl := Option.some.inj hs
          exact Nat.le_add_right _ _
      | drop =>
          simp only [limiterEvent] at hs
          split at hs
          · cases hs
          · obtain ⟨-, rfl⟩ := guarded hs
            exact Nat.le_refl _

-- Until its end the lock stays.
def LockKept (limiter : LoginLimiter) (start : Nat) (p : LimiterPool T) : Prop :=
  LimiterInv limiter p ∧
    (p.shared.now < start + 1000 * limiter.lockSeconds → LockedSince limiter start p.shared)

theorem lockKept_step {start : Nat} (p : LimiterPool T) (act : (T × LimiterAct) ⊕ LimiterEvent)
    (q : LimiterPool T) (hp : LockKept limiter start p) (h : limiterPoolStep limiter p act = some q) :
    LockKept limiter start q := by
  obtain ⟨hi, hlocked⟩ := hp
  refine ⟨limiterInv_step p act q hi h, fun hend => ?_⟩
  have hnow := Nat.lt_of_le_of_lt (now_le_step hi h) hend
  have hlock := hlocked hnow
  cases act with
  | inl act =>
      obtain ⟨t, act⟩ := act
      obtain ⟨s, l, hl, rfl⟩ := Pool.step_task h
      exact lockedSince_effect hlock hnow (limiterStep_effect hi.key (hi.phase t) hl)
  | inr event =>
      obtain ⟨s, hs, rfl⟩ := Pool.step_env h
      obtain ⟨hstart, hmax, d, hkey, hd⟩ := hlock
      cases event with
      | tick elapsed =>
          obtain rfl := Option.some.inj hs
          exact ⟨Nat.le_add_right_of_le hstart, hmax, d, hkey, hd⟩
      | drop =>
          -- the deadline of the lock has not come
          simp only [limiterEvent, hkey, counter_deadline] at hs
          obtain ⟨hdue, -⟩ := guarded hs
          simp only [Option.any_some, decide_eq_true_eq] at hdue
          omega

-- The calls of `r` that begin during the lock read it.
def LockRead (limiter : LoginLimiter) (start : Nat) (r : T) (p : LimiterPool T) : Prop :=
  LockKept limiter start p ∧
    (p.shared.now < start + 1000 * limiter.lockSeconds → ReadLocked limiter (p.loc r))

theorem lockRead_step {start : Nat} {r : T} (p : LimiterPool T) (act : (T × LimiterAct) ⊕ LimiterEvent)
    (q : LimiterPool T) (hp : LockRead limiter start r p) (h : limiterPoolStep limiter p act = some q) :
    LockRead limiter start r q := by
  obtain ⟨⟨hi, hlock⟩, hread⟩ := hp
  refine ⟨lockKept_step p act q ⟨hi, hlock⟩ h, fun hend => ?_⟩
  have hnow := Nat.lt_of_le_of_lt (now_le_step hi h) hend
  cases act with
  | inl act =>
      obtain ⟨t, act⟩ := act
      obtain ⟨s, l, hl, rfl⟩ := Pool.step_task h
      by_cases ht : r = t
      · subst ht
        rw [Pool.move_loc_self]
        exact readLocked_step hi.key (hlock hnow) hnow (hread hnow) hl
      · rw [Pool.move_loc_ne _ _ _ ht]
        exact hread hnow
  | inr event =>
      obtain ⟨s, -, rfl⟩ := Pool.step_env h
      exact hread hnow

-- Every call of `retry_after` that begins after `p` and ends before the lock does says so.
def LockHolds (limiter : LoginLimiter) (start : Nat) (p : LimiterPool T) : Prop :=
  ∀ u v q r, Reaches (limiterPoolStep limiter) p u →
    limiterPoolStep limiter u (.inl (r, .call .retryAfter)) = some v →
    Reaches (limiterPoolStep limiter) v q → q.shared.now < start + 1000 * limiter.lockSeconds →
    q.loc r ≠ .retryAfter none ∧ ∀ error, q.loc r ≠ .raised .retryAfter error

theorem lockHolds_of_lockedSince {start : Nat} (hi : LimiterInv limiter p)
    (hlock : LockedSince limiter start p.shared) : LockHolds limiter start p := by
  intro u v q r hu hcall hq hend
  have hkept : LockKept limiter start u := hu.invariant lockKept_step ⟨hi, fun _ => hlock⟩
  have hbegin : LockRead limiter start r v := by
    refine ⟨lockKept_step u _ v hkept hcall, fun _ => ?_⟩
    obtain ⟨s, l, hl, rfl⟩ := Pool.step_task hcall
    obtain ⟨-, heq⟩ := guarded hl
    obtain ⟨rfl, rfl⟩ := Prod.mk.inj heq
    rw [Pool.move_loc_self]
    trivial
  have hread : LockRead limiter start r q := hq.invariant lockRead_step hbegin
  have hphase := hread.2 hend
  constructor
  · intro hloc
    rw [hloc] at hphase
    exact hphase
  · intro error hloc
    rw [hloc] at hphase
    exact hphase

-- A count below the threshold: the call that has set the deadline returns and asks for the lock.
theorem not_lockHolds_of_below {t : T} {c : Counted} {d start : Nat} (hstart : start = p.shared.now)
    (hloc : p.loc t = .expire c (some true))
    (hkey : p.shared.key = some (counter p.shared.increments d)) (hd : p.shared.now ≤ d)
    (hpos : 0 < p.shared.increments) (hmax : p.shared.increments ≤ maxInteger)
    (hbelow : p.shared.increments < limiter.maxFailures) :
    ¬ LockHolds limiter start p := by
  intro hholds
  let s : LimiterShared := { p.shared with answers := p.shared.answers ++ [⟨c, locked limiter⟩] }
  have hreturn : limiterPoolStep limiter p (.inl (t, .reply)) =
    some (p.move t s (.recorded (locked limiter))) := by
    refine Pool.step_of_task ?_
    rw [hloc]
    rfl
  let u := p.move t s (.recorded (locked limiter))
  let v := u.move t s (.get none)
  have hcall : limiterPoolStep limiter u (.inl (t, .call .retryAfter)) = some v := by
    refine Pool.step_of_task ?_
    rw [Pool.move_loc_self]
    rfl
  have hread : Reaches (Pool.soloStep (limiterStep limiter) limiterEvent t) (v.shared, v.loc t)
      (s, .retryAfter none) := by
    have hraw : Redis.get p.shared.now p.shared.key = some (decimal p.shared.increments) := by
      rw [hkey, Redis.get, live_counter, if_pos hd]
      rfl
    refine ⟨[.inl .execute, .inl .reply], ?_⟩
    rw [Pool.move_loc_self]
    simp [run, Pool.soloStep, limiterStep, executeCommand, processReply, readCount, v, s, hraw,
      decodeCount_decimal hpos hmax, hbelow]
  have hlock := limiter.lock
  have hnow : p.shared.now < start + 1000 * limiter.lockSeconds := by omega
  have hnone := hholds u v _ t (Reaches.single hreturn) hcall (Pool.reaches_of_solo hread) hnow
  exact hnone.1 (Pool.move_loc_self _ _ _ _)

-- An EXPIRE that takes effect sets a lock if the key that it finds has reached the threshold. It may
-- find another key than the one in which its call has counted.
theorem lock_durable_iff {t : T} {c : Counted} {reply : Option Bool}
    (hp : Reaches (limiterPoolStep limiter) (.init T) p) (hloc : p.loc t = .expire c reply)
    (hstep : limiterPoolStep limiter p (.inl (t, .execute)) = some q)
    (hset : q.loc t = .expire c (some true)) :
    LockHolds limiter p.shared.now q ↔
      ∃ key n, live p.shared.now p.shared.key = some key ∧ key.value = decimal n ∧
        limiter.maxFailures ≤ n := by
  have hi : LimiterInv limiter p := hp.invariant limiterInv_step limiterInv_init
  have hiq : LimiterInv limiter q := limiterInv_step p _ q hi hstep
  obtain ⟨s, l, hl, rfl⟩ := Pool.step_task hstep
  rw [hloc] at hl
  rw [Pool.move_loc_self] at hset
  rcases hi.key.cases with habsent | ⟨d, hcounter, hnow, hpos, hmax⟩
  · simp only [limiterStep, executeCommand, Redis.expire, habsent] at hl
    obtain ⟨-, rfl⟩ := Prod.mk.inj (Option.some.inj hl)
    cases hset
  · have hlive : live p.shared.now p.shared.key = some (counter p.shared.increments d) := by
      rw [hcounter, live_counter, if_pos hnow]
    simp only [limiterStep, executeCommand, Redis.expire, hlive] at hl
    obtain ⟨rfl, rfl⟩ := Prod.mk.inj (Option.some.inj hl)
    constructor
    · intro hholds
      refine ⟨_, p.shared.increments, hlive, rfl, ?_⟩
      by_contra hbelow
      exact absurd hholds (not_lockHolds_of_below rfl (Pool.move_loc_self _ _ _ _) rfl
        (Nat.le_add_right _ _) hpos hmax (Nat.lt_of_not_le hbelow))
    · rintro ⟨key, n, hkey, hvalue, hn⟩
      rw [hlive] at hkey
      obtain rfl := Option.some.inj hkey
      have hcount : p.shared.increments = n := decimal_injective hvalue
      exact lockHolds_of_lockedSince hiq ⟨Nat.le_refl _, hcount ▸ hn, _, rfl, Nat.le_refl _⟩

end Runs

-- Two failures are enough for a lock of 20 seconds.
def strictLimiter : LoginLimiter where
  maxFailures := 2
  failureWindowSeconds := 10
  lockSeconds := 20

def failTwice : List ((Nat × LimiterAct) ⊕ LimiterEvent) :=
  [.inl (0, .call .recordFailure), .inl (0, .execute), .inl (0, .reply), .inl (1, .call .recordFailure),
    .inl (1, .execute), .inl (1, .reply)]

theorem login_counter_two_failures : ∃ p : LimiterPool Nat,
    Reaches (limiterPoolStep strictLimiter) (.init Nat) p ∧ p.shared.key = some ⟨['2'], some 10000⟩ ∧
      (∀ t error, p.loc t ≠ .raised .retryAfter error) ∧
      (p.shared.answers.filter fun a =>
        a.counted.lifetime = 1 ∧ a.status.retryAfterSeconds = none).length ≤ 1 := by
  have hreach : Reaches (limiterPoolStep strictLimiter) (.init Nat) _ := ⟨failTwice, rfl⟩
  have hinv := login_counter_invariant hreach
  exact ⟨_, hreach, rfl, hinv.2.1, hinv.2.2.2.2.2.2.1 1⟩

theorem lock_durable_second_failure : ∃ p q : LimiterPool Nat,
    Reaches (limiterPoolStep strictLimiter) (.init Nat) p ∧
      limiterPoolStep strictLimiter p (.inl (1, .execute)) = some q ∧
      q.loc 1 = .expire ⟨1, 2⟩ (some true) ∧ LockHolds strictLimiter p.shared.now q := by
  obtain ⟨p, q, hreach, hloc, hstep, hset, hlive⟩ : ∃ p q : LimiterPool Nat,
      Reaches (limiterPoolStep strictLimiter) (.init Nat) p ∧ p.loc 1 = .expire ⟨1, 2⟩ none ∧
        limiterPoolStep strictLimiter p (.inl (1, .execute)) = some q ∧ q.loc 1 = .expire ⟨1, 2⟩
          (some true) ∧
        live p.shared.now p.shared.key = some (counter 2 10000) :=
    ⟨_, _, ⟨failTwice, rfl⟩, rfl, rfl, rfl, rfl⟩
  have hholds := (lock_durable_iff hreach hloc hstep hset).mpr ⟨_, 2, hlive, rfl, Nat.le_refl 2⟩
  exact ⟨p, q, hreach, hstep, hset, hholds⟩

-- The window of the first two failures ends before the EXPIRE of the second one, which then finds
-- the key of a third failure: the second call reports a lock, and `retry_after` reports none.
theorem lock_lost : ∃ p q r : LimiterPool Nat,
    Reaches (limiterPoolStep strictLimiter) (.init Nat) p ∧ p.loc 1 = .expire ⟨1, 2⟩ none ∧
      limiterPoolStep strictLimiter p (.inl (1, .execute)) = some q ∧ q.loc 1 = .expire ⟨1, 2⟩ (some true) ∧
      q.loc 3 = .idle ∧
      run (limiterPoolStep strictLimiter) q
        [.inl (1, .reply), .inl (3, .call .retryAfter), .inl (3, .execute), .inl (3, .reply)] = some r ∧
      r.loc 1 = .recorded (locked strictLimiter) ∧ r.loc 3 = .retryAfter none ∧
      r.shared.now < p.shared.now + 1000 * strictLimiter.lockSeconds := by
  have hreach : Reaches (limiterPoolStep strictLimiter) (.init Nat) _ :=
    ⟨failTwice ++ [.inr (.tick 10001), .inl (2, .call .recordFailure), .inl (2, .execute)], rfl⟩
  exact ⟨_, _, _, hreach, rfl, rfl, rfl, rfl, rfl, rfl, rfl, by decide⟩

end Scaffold.Users
