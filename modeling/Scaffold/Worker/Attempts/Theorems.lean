import Mathlib.Order.Bounds.Basic
import Scaffold.Worker.Attempts

namespace Scaffold.Worker

section Delay

variable {policy : JobPolicy}

-- The delay after attempt `i`: item `min i len - 1` of the tuple, or nothing to wait for.
def JobPolicy.delayAfter (policy : JobPolicy) (i : Nat) : Rat :=
  match policy.backoffSeconds with
  | [] => 0
  | first :: rest => (first :: rest).get ⟨min i (rest.length + 1) - 1, by rw [List.length_cons]; omega⟩

-- The index is in range for every attempt of the loop.
theorem subscriptedDelay_eq {attempt : Nat} (h : 1 ≤ attempt) :
    policy.subscriptedDelay attempt = some (policy.delayAfter attempt) := by
  unfold JobPolicy.subscriptedDelay JobPolicy.delayAfter
  cases policy.backoffSeconds with
  | nil => rfl
  | cons first rest =>
      have hindex : min ((attempt : Int) - 1) ((first :: rest).length - 1) =
          ((min attempt (rest.length + 1) - 1 : Nat) : Int) := by
        simp only [List.length_cons]
        omega
      have hbound : min attempt (rest.length + 1) - 1 < (first :: rest).length := by
        simp only [List.length_cons]
        omega
      rw [if_neg (List.cons_ne_nil first rest), hindex, subscript, if_pos (Int.natCast_nonneg _),
        Int.toNat_natCast, List.getElem?_eq_getElem hbound]
      rfl

end Delay

section Law

variable {F : Type} {policy : JobPolicy} {outcomes : Nat → AttemptOutcome F}

-- The outcomes after which there is another attempt, if the policy has one left.
def AttemptOutcome.retried : AttemptOutcome F → Bool
  | .retryableJobError _ => true
  | .timeoutError expired _ => expired
  | _ => false

-- The reason that an outcome gives as the last one.
def AttemptOutcome.reason : AttemptOutcome F → Option FailureReason
  | .returned expired => if expired then some .timeoutSuppressed else none
  | .retryableJobError _ => some .retryExhausted
  | .timeoutError expired _ => if expired then some .executionTimeout else some .handlerTimeoutError
  | .invalidMessageError _ => some .invalidJobPayload
  | .exception _ => some .handlerError
  | .jobDefinitionError | .baseException => none

-- How the loop ends with this outcome in its last attempt.
def AttemptOutcome.conclusion (attempt : Nat) (outcome : AttemptOutcome F) :
    Except AttemptsError (ExecutionResult F) :=
  match outcome with
  | .returned _ => .ok { attempts := attempt, failureReason := outcome.reason }
  | .retryableJobError error | .timeoutError _ error | .invalidMessageError error | .exception error =>
      .ok {
        attempts := attempt
        failureReason := outcome.reason
        errorType := some error.errorType
        stacktrace := error.stacktrace }
  | .jobDefinitionError => .error (.execution .jobDefinition)
  | .baseException => .error (.execution .raised)

-- `n` executions with one sleep between each and the next.
def schedule (policy : JobPolicy) (first n : Nat) : List AttemptEvent :=
  ((List.range' first (n - first)).flatMap fun i =>
    [.execute i, .sleep (policy.delayAfter i)]) ++ [.execute n]

-- The run from an attempt on, by what an execution does after it and by the later attempts.
def turn (policy : JobPolicy) (attempt : Nat)
    (later : List AttemptEvent × Except AttemptsError (ExecutionResult F)) :
    AttemptNext F → List AttemptEvent × Except AttemptsError (ExecutionResult F)
  | .finished result => ([.execute attempt], .ok result)
  | .raised error => ([.execute attempt], .error (.execution error))
  | .retry => (.execute attempt :: .sleep (policy.delayAfter attempt) :: later.1, later.2)

-- The loop does what the steps of an execution do: neither the assertion nor the subscript fails.
theorem attemptLoop_cons {attempt : Nat} (rest : List Nat) (hpos : 1 ≤ attempt) :
    attemptLoop policy outcomes (attempt :: rest) =
      turn policy attempt (attemptLoop policy outcomes rest)
        (afterAttempt policy attempt (outcomes attempt)) := by
  have hretry : ∀ (reason : FailureReason) (error : ErrorDetails F),
      tryAttempt attempt (outcomes attempt) = .continues reason (some error) →
      attemptLoop policy outcomes (attempt :: rest) =
        turn policy attempt (attemptLoop policy outcomes rest) (retryOr policy attempt reason error) := by
    intro reason error htry
    rw [retryOr, attemptLoop, htry]
    by_cases hlast : attempt = policy.maxAttempts
    · simp only [if_pos hlast, turn]
    · simp only [if_neg hlast, subscriptedDelay_eq hpos, turn]
  cases houtcome : outcomes attempt with
  | returned expired => cases expired <;> simp [attemptLoop, houtcome, tryAttempt, afterAttempt, turn]
  | retryableJobError error => exact hretry .retryExhausted error (by rw [houtcome]; rfl)
  | timeoutError expired error =>
      cases expired with
      | true => exact hretry .executionTimeout error (by rw [houtcome]; rfl)
      | false => simp [attemptLoop, houtcome, tryAttempt, afterAttempt, turn]
  | invalidMessageError error => simp [attemptLoop, houtcome, tryAttempt, afterAttempt, turn]
  | jobDefinitionError => simp [attemptLoop, houtcome, tryAttempt, afterAttempt, turn]
  | exception error => simp [attemptLoop, houtcome, tryAttempt, afterAttempt, turn]
  | baseException => simp [attemptLoop, houtcome, tryAttempt, afterAttempt, turn]

theorem turn_retry {attempt : Nat} {outcome : AttemptOutcome F}
    {later : List AttemptEvent × Except AttemptsError (ExecutionResult F)}
    (hlast : attempt ≠ policy.maxAttempts) (h : outcome.retried) :
    turn policy attempt later (afterAttempt policy attempt outcome) =
      (.execute attempt :: .sleep (policy.delayAfter attempt) :: later.1, later.2) := by
  have hretry : afterAttempt policy attempt outcome = .retry := by
    cases outcome with
    | retryableJobError error => exact if_neg hlast
    | timeoutError expired error =>
        obtain rfl : expired = true := h
        exact if_neg hlast
    | _ => cases h
  rw [hretry]
  rfl

theorem turn_final {attempt : Nat} {outcome : AttemptOutcome F}
    {later : List AttemptEvent × Except AttemptsError (ExecutionResult F)}
    (h : attempt = policy.maxAttempts ∨ ¬ outcome.retried) :
    turn policy attempt later (afterAttempt policy attempt outcome) =
      ([.execute attempt], outcome.conclusion attempt) := by
  have hretryOr : outcome.retried → ∀ reason (error : ErrorDetails F),
      retryOr policy attempt reason error = .finished (failedResult attempt reason error) :=
    fun hretried reason error => if_pos (h.resolve_right fun hnot => hnot hretried)
  cases outcome with
  | returned expired => cases expired <;> rfl
  | retryableJobError error =>
      rw [afterAttempt, hretryOr rfl]
      rfl
  | timeoutError expired error =>
      cases expired with
      | true =>
          rw [afterAttempt, if_pos rfl, hretryOr rfl]
          rfl
      | false => rfl
  | _ => rfl

-- The run over the attempts that are left. The induction is on their number.
theorem attemptLoop_range (outcomes : Nat → AttemptOutcome F) {first count : Nat}
    (hfirst : 1 ≤ first) (hcount : 1 ≤ count)
    (hsum : first + count = policy.maxAttempts + 1) :
    ∃ n, first ≤ n ∧ (∀ i, first ≤ i → i < n → i ≠ policy.maxAttempts ∧ (outcomes i).retried) ∧
      (n = policy.maxAttempts ∨ ¬ (outcomes n).retried) ∧
      attemptLoop policy outcomes (List.range' first count) =
        (schedule policy first n, (outcomes n).conclusion n) := by
  induction count generalizing first with
  | zero => cases hcount
  | succ count ih =>
      rw [List.range'_succ, attemptLoop_cons _ hfirst]
      by_cases hfinal : first = policy.maxAttempts ∨ ¬ (outcomes first).retried
      · refine ⟨first, Nat.le_refl first, fun i hi hlt => absurd hi (Nat.not_le_of_lt hlt), hfinal, ?_⟩
        rw [turn_final hfinal, schedule, Nat.sub_self]
        rfl
      · obtain ⟨hlast, hretried⟩ := not_or.mp hfinal
        have hretried : (outcomes first).retried := not_not.mp hretried
        obtain ⟨n, hn, hbefore, hend, hrun⟩ := ih (by omega : 1 ≤ first + 1) (by omega) (by omega)
        refine ⟨n, by omega, fun i hi hlt => ?_, hend, ?_⟩
        · by_cases heq : i = first
          · exact heq ▸ ⟨hlast, hretried⟩
          · exact hbefore i (by omega) hlt
        · have hsplit : n - first = n - (first + 1) + 1 := by omega
          rw [turn_retry hlast hretried, hrun, schedule, schedule, hsplit, List.range'_succ]
          rfl

theorem conclusion_ok {n : Nat} {outcome : AttemptOutcome F} {result : ExecutionResult F}
    (h : outcome.conclusion n = .ok result) : result.attempts = n ∧ result.failureReason = outcome.reason ∧
      outcome ≠ .jobDefinitionError ∧ outcome ≠ .baseException := by
  cases outcome with
  | jobDefinitionError => cases h
  | baseException => cases h
  | _ =>
      obtain rfl := Except.ok.inj h
      exact ⟨rfl, rfl, nofun, nofun⟩

theorem conclusion_error {n : Nat} {outcome : AttemptOutcome F} {error : AttemptsError} :
    outcome.conclusion n = .error error ↔
      outcome = .jobDefinitionError ∧ error = .execution .jobDefinition ∨
      outcome = .baseException ∧ error = .execution .raised := by
  cases outcome with
  | jobDefinitionError => simp [AttemptOutcome.conclusion, eq_comm]
  | baseException => simp [AttemptOutcome.conclusion, eq_comm]
  | _ => simp [AttemptOutcome.conclusion]

theorem reason_eq_none {outcome : AttemptOutcome F} (hdefinition : outcome ≠ .jobDefinitionError)
    (hbase : outcome ≠ .baseException) : outcome.reason = none ↔ outcome = .returned false := by
  cases outcome with
  | returned expired => cases expired <;> simp [AttemptOutcome.reason]
  | timeoutError expired error => cases expired <;> simp [AttemptOutcome.reason]
  | jobDefinitionError => exact absurd rfl hdefinition
  | baseException => exact absurd rfl hbase
  | _ => simp [AttemptOutcome.reason]

theorem retried_of_reason {outcome : AttemptOutcome F}
    (h : outcome.reason = some .retryExhausted ∨ outcome.reason = some .executionTimeout) :
      outcome.retried := by
  cases outcome with
  | returned expired => cases expired <;> simp [AttemptOutcome.reason] at h
  | retryableJobError error => rfl
  | timeoutError expired error =>
      cases expired with
      | true => rfl
      | false => simp [AttemptOutcome.reason] at h
  | _ => simp [AttemptOutcome.reason] at h

theorem invalidMessageError_of_reason {outcome : AttemptOutcome F}
    (h : outcome.reason = some .invalidJobPayload) :
    ∃ details, outcome = .invalidMessageError details := by
  cases outcome with
  | returned expired => cases expired <;> simp [AttemptOutcome.reason] at h
  | timeoutError expired error => cases expired <;> simp [AttemptOutcome.reason] at h
  | invalidMessageError details => exact ⟨details, rfl⟩
  | _ => simp [AttemptOutcome.reason] at h

-- The attempts at which the loop may end.
def Final (policy : JobPolicy) (outcomes : Nat → AttemptOutcome F) : Set Nat :=
  {i | 1 ≤ i ∧ (i = policy.maxAttempts ∨ ¬ (outcomes i).retried)}

theorem runAttempts_eq (policy : JobPolicy) (outcomes : Nat → AttemptOutcome F) :
    ∃ n, IsLeast (Final policy outcomes) n ∧
      runAttempts policy outcomes = (schedule policy 1 n, (outcomes n).conclusion n) := by
  obtain ⟨n, hn, hbefore, hend, hrun⟩ := attemptLoop_range outcomes (Nat.le_refl 1) policy.attempted
    (Nat.add_comm 1 policy.maxAttempts)
  refine ⟨n, ⟨⟨hn, hend⟩, fun i hi => ?_⟩, hrun⟩
  by_contra hlt
  obtain ⟨hlast, hretried⟩ := hbefore i hi.1 (Nat.lt_of_not_le hlt)
  exact hi.2.elim hlast fun hnot => hnot hretried

-- The loop ends at the first attempt that is the last one allowed or is not retried.
theorem run_attempts_law (policy : JobPolicy) (outcomes : Nat → AttemptOutcome F) :
    ∃ n, IsLeast {i | 1 ≤ i ∧ (i = policy.maxAttempts ∨ ¬ (outcomes i).retried)} n ∧
      (runAttempts policy outcomes).1 = schedule policy 1 n ∧
      (∀ result, (runAttempts policy outcomes).2 = .ok result →
        result.attempts = n ∧ result.failureReason = (outcomes n).reason ∧
        (result.failureReason = none ↔ outcomes n = .returned false) ∧
        (result.failureReason = some .retryExhausted ∨ result.failureReason = some .executionTimeout →
          n = policy.maxAttempts)) ∧
      ∀ error, (runAttempts policy outcomes).2 = .error error ↔
        outcomes n = .jobDefinitionError ∧ error = .execution .jobDefinition ∨
        outcomes n = .baseException ∧ error = .execution .raised := by
  obtain ⟨n, hleast, hrun⟩ := runAttempts_eq policy outcomes
  rw [hrun]
  refine ⟨n, hleast, rfl, fun result hresult => ?_, fun _ => conclusion_error⟩
  obtain ⟨hattempts, hreason, hdefinition, hbase⟩ := conclusion_ok hresult
  refine ⟨hattempts, hreason, ?_, fun hretry => ?_⟩
  · rw [hreason, reason_eq_none hdefinition hbase]
  · rw [hreason] at hretry
    exact hleast.1.2.resolve_right fun hnot => hnot (retried_of_reason hretry)

end Law

section Classification

variable {V T F : Type} [DecidableEq T] (policy : JobPolicy) (binding : Binding V T)
  (describe : ErrorClass → ErrorDetails F) (decode : Nat → Decoded V F) (handle : Nat → V → Handled F)

-- The outcomes of the attempts of a binding, whose decoder and handler may do something else each time.
def Binding.outcomes (i : Nat) : AttemptOutcome F := caught (binding.execute describe (decode i) (handle i))

-- The attempts that are made.
def Made (outcomes : Nat → AttemptOutcome F) (k : Nat) : Prop :=
  1 ≤ k ∧ k ≤ policy.maxAttempts ∧ ∀ j, 1 ≤ j → j < k → (outcomes j).retried

-- The decoder rejects the payload.
def Rejects (decoded : Decoded V F) : Prop :=
  ∃ error, decoded = .raised error ∧ (error.cls.isInstance .jobDecodeError ∨
    error.cls.isInstance .invalidMessageError ∨ error.cls.isInstance .validationError)

-- The `except` clause that takes an error, by the order of the clauses.
inductive Clause where
  | retryable
  | timeout
  | job
  | exception
  deriving DecidableEq

def PyClass.clause (cls : PyClass) : Clause :=
  if cls.isInstance .retryableJobError then .retryable
  else if cls.isInstance .timeoutError then .timeout
  else if cls.isInstance .invalidMessageError ∨ cls.isInstance .jobDefinitionError then .job
  else .exception

-- It rejects the payload with an error that the binding replaces, or with a `JobDecodeError` that no
-- other clause takes and that is no `JobDefinitionError`.
def RejectsPlainly (decoded : Decoded V F) : Prop :=
  Rejects decoded ∧ ∀ error, decoded = .raised error → error.cls.isInstance .jobDecodeError →
    error.cls.clause = .job ∧ ¬ error.cls.isInstance .jobDefinitionError

-- The decoder raises another exception or returns an object of another type.
def Binding.Breaks (decoded : Decoded V F) : Prop :=
  (∃ error, decoded = .raised error ∧ ¬ (error.cls.isInstance .jobDecodeError ∨
    error.cls.isInstance .invalidMessageError ∨ error.cls.isInstance .validationError)) ∨
  ∃ value, decoded = .job value ∧ binding.typeOf value ≠ binding.jobType

def Binding.HandlerRaises (decoded : Decoded V F) (handle : V → Handled F) (error : PyError F) : Prop :=
  ∃ value expired, decoded = .job value ∧ binding.typeOf value = binding.jobType ∧
    handle value = .raised expired error

def InvalidPayload (run : List AttemptEvent × Except AttemptsError (ExecutionResult F)) : Prop :=
  ∃ result, run.2 = .ok result ∧ result.failureReason = some .invalidJobPayload

def DefinitionEscapes (run : List AttemptEvent × Except AttemptsError (ExecutionResult F)) : Prop :=
  run.2 = .error (.execution .jobDefinition)

-- Bad payloads, broken definitions and errors of the handler are told apart.
def Binding.Separates : Prop :=
  (InvalidPayload (runAttempts policy (binding.outcomes describe decode handle)) ↔
    ∃ k, Made policy (binding.outcomes describe decode handle) k ∧ Rejects (decode k)) ∧
  (DefinitionEscapes (runAttempts policy (binding.outcomes describe decode handle)) ↔
    ∃ k, Made policy (binding.outcomes describe decode handle) k ∧ binding.Breaks (decode k)) ∧
  ∀ k error, Made policy (binding.outcomes describe decode handle) k →
    binding.HandlerRaises (decode k) (handle k) error →
    k ∈ Final policy (binding.outcomes describe decode handle) →
    ¬ InvalidPayload (runAttempts policy (binding.outcomes describe decode handle)) ∧
    ¬ DefinitionEscapes (runAttempts policy (binding.outcomes describe decode handle))

variable {policy binding describe decode handle}

theorem caught_job (expired : Bool) {error : PyError F} (h : error.cls.clause = .job) :
    caught (.raised expired error) =
      if error.cls.isInstance .jobDefinitionError then .jobDefinitionError
      else .invalidMessageError error.details := by
  unfold PyClass.clause at h
  split_ifs at h with hretryable htimeout hjob
  exact (if_neg hretryable).trans ((if_neg htimeout).trans (if_pos hjob))

-- An error that another clause takes is no rejected payload and no broken definition.
theorem caught_other (expired : Bool) {error : PyError F} (h : error.cls.clause ≠ .job) :
    (∀ details, caught (.raised expired error) ≠ .invalidMessageError details) ∧
      caught (.raised expired error) ≠ .jobDefinitionError := by
  unfold PyClass.clause at h
  unfold caught
  dsimp only
  split_ifs at h ⊢
  · exact ⟨fun details heq => (by cases heq), fun heq => (by cases heq)⟩
  · exact ⟨fun details heq => (by cases heq), fun heq => (by cases heq)⟩
  · exact absurd rfl h
  · exact absurd rfl h
  · exact ⟨fun details heq => (by cases heq), fun heq => (by cases heq)⟩

theorem caught_invalid {expired : Bool} {error : PyError F} {details : ErrorDetails F}
    (h : caught (.raised expired error) = .invalidMessageError details) :
    error.cls.clause = .job ∧ ¬ error.cls.isInstance .jobDefinitionError := by
  have hclause : error.cls.clause = .job := by
    by_contra hother
    exact (caught_other expired hother).1 details h
  refine ⟨hclause, fun hdefinition => ?_⟩
  rw [caught_job expired hclause, if_pos hdefinition] at h
  cases h

-- What an attempt ends with: a rejected payload, a broken definition, or what the handler does.
variable (binding describe handle) in
theorem outcomes_rejects {k : Nat} (h : RejectsPlainly (decode k)) :
    ∃ details, binding.outcomes describe decode handle k = .invalidMessageError details := by
  obtain ⟨⟨error, hdecode, hclass⟩, hplainly⟩ := h
  rw [Binding.outcomes, hdecode]
  by_cases hjob : error.cls.isInstance .jobDecodeError
  · obtain ⟨hclause, hdefinition⟩ := hplainly error hdecode hjob
    have hexecute : binding.execute describe (.raised error) (handle k) = .raised false error := if_pos hjob
    rw [hexecute, caught_job false hclause, if_neg hdefinition]
    exact ⟨_, rfl⟩
  · have hexecute : binding.execute describe (.raised error) (handle k) =
        .raised false ⟨.derived [.jobDecodeError], describe .jobDecodeError⟩ :=
      (if_neg hjob).trans (if_pos (hclass.resolve_left hjob))
    rw [hexecute]
    exact ⟨_, rfl⟩

variable (describe handle) in
theorem outcomes_breaks {k : Nat} (h : binding.Breaks (decode k)) :
    binding.outcomes describe decode handle k = .jobDefinitionError := by
  have hexecute : binding.execute describe (decode k) (handle k) =
      .raised false ⟨.derived [.jobDefinitionError], describe .jobDefinitionError⟩ := by
    obtain ⟨error, hdecode, hclass⟩ | ⟨value, hdecode, htype⟩ := h
    · obtain ⟨hjob, hother⟩ := not_or.mp hclass
      rw [hdecode]
      exact (if_neg hjob).trans (if_neg hother)
    · rw [hdecode]
      exact if_pos htype
  rw [Binding.outcomes, hexecute]
  rfl

theorem outcomes_handled {k : Nat} {value : V} (hdecode : decode k = .job value)
    (htype : binding.typeOf value = binding.jobType) :
    binding.outcomes describe decode handle k = caught (handle k value) := by
  have hexecute : binding.execute describe (decode k) (handle k) = handle k value := by
    rw [hdecode]
    exact if_neg (not_not.mpr htype)
  rw [Binding.outcomes, hexecute]

variable (binding decode) in
theorem decoded_cases (k : Nat) : Rejects (decode k) ∨ binding.Breaks (decode k) ∨
    ∃ value, decode k = .job value ∧ binding.typeOf value = binding.jobType := by
  cases hdecode : decode k with
  | raised error =>
      by_cases hclass : error.cls.isInstance .jobDecodeError ∨ error.cls.isInstance .invalidMessageError ∨
          error.cls.isInstance .validationError
      · exact .inl ⟨error, rfl, hclass⟩
      · exact .inr (.inl (.inl ⟨error, rfl, hclass⟩))
  | job value =>
      by_cases htype : binding.typeOf value = binding.jobType
      · exact .inr (.inr ⟨value, rfl, htype⟩)
      · exact .inr (.inl (.inr ⟨value, rfl, htype⟩))

-- The end of a run is decided by the attempt that is made and final.
theorem runAttempts_made {outcomes : Nat → AttemptOutcome F} {k : Nat} (hmade : Made policy outcomes k)
    (hfinal : k ∈ Final policy outcomes) : (runAttempts policy outcomes).2 = (outcomes k).conclusion k := by
  obtain ⟨n, hleast, hrun⟩ := runAttempts_eq policy outcomes
  have hn : n = k := by
    refine Nat.le_antisymm (hleast.2 hfinal) (Nat.le_of_not_lt fun hlt => ?_)
    have hretried := hmade.2.2 n hleast.1.1 hlt
    have hlast : n ≠ policy.maxAttempts := Nat.ne_of_lt (Nat.lt_of_lt_of_le hlt hmade.2.1)
    exact hleast.1.2.elim hlast fun hnot => hnot hretried
  rw [hrun, hn]

-- No attempt is made behind a final one.
theorem made_unique {outcomes : Nat → AttemptOutcome F} {k n : Nat} (hk : Made policy outcomes k)
    (hkfinal : k ∈ Final policy outcomes) (hn : Made policy outcomes n) (hnfinal : n ∈ Final policy outcomes) :
    k = n := by
  have hle : ∀ {k n : Nat}, Made policy outcomes k → k ∈ Final policy outcomes → Made policy outcomes n →
      n ≤ k := by
    intro k n hk hkfinal hn
    by_contra hlt
    have hretried := hn.2.2 k hk.1 (by omega)
    have hlast : k ≠ policy.maxAttempts := by
      have hbound := hn.2.1
      omega
    exact hkfinal.2.elim hlast fun hnot => hnot hretried
  exact Nat.le_antisymm (hle hn hnfinal hk) (hle hk hkfinal hn)

variable (policy) in
theorem exists_made (outcomes : Nat → AttemptOutcome F) :
    ∃ n, Made policy outcomes n ∧ n ∈ Final policy outcomes := by
  obtain ⟨n, hleast, -⟩ := runAttempts_eq policy outcomes
  refine ⟨n, ⟨hleast.1.1, hleast.2 ⟨policy.attempted, .inl rfl⟩, fun j hj hlt => ?_⟩, hleast.1⟩
  by_contra hnot
  exact absurd (hleast.2 ⟨hj, .inr hnot⟩) (Nat.not_le_of_lt hlt)

theorem invalidPayload_iff {outcomes : Nat → AttemptOutcome F} {k : Nat} (hmade : Made policy outcomes k)
    (hfinal : k ∈ Final policy outcomes) :
    InvalidPayload (runAttempts policy outcomes) ↔
      ∃ details, outcomes k = .invalidMessageError details := by
  rw [InvalidPayload, runAttempts_made hmade hfinal]
  constructor
  · rintro ⟨result, hresult, hreason⟩
    rw [(conclusion_ok hresult).2.1] at hreason
    exact invalidMessageError_of_reason hreason
  · rintro ⟨details, houtcome⟩
    rw [houtcome]
    exact ⟨_, rfl, rfl⟩

theorem definitionEscapes_iff {outcomes : Nat → AttemptOutcome F} {k : Nat} (hmade : Made policy outcomes k)
    (hfinal : k ∈ Final policy outcomes) :
    DefinitionEscapes (runAttempts policy outcomes) ↔ outcomes k = .jobDefinitionError := by
  rw [DefinitionEscapes, runAttempts_made hmade hfinal, conclusion_error]
  simp

theorem final_of_not_retried {outcomes : Nat → AttemptOutcome F} {k : Nat} (hmade : Made policy outcomes k)
    (h : (outcomes k).retried = false) : k ∈ Final policy outcomes :=
  ⟨hmade.1, .inr (by simp [h])⟩

variable (describe) in
theorem handlerRaises_outcomes {k : Nat} {error : PyError F}
    (h : binding.HandlerRaises (decode k) (handle k) error) :
    ∃ expired, binding.outcomes describe decode handle k = caught (.raised expired error) := by
  obtain ⟨value, expired, hdecode, htype, hhandle⟩ := h
  exact ⟨expired, by rw [outcomes_handled hdecode htype, hhandle]⟩

-- The outcome of a decoded object is that of its handler.
variable (describe handle) in
theorem handled_cases {k : Nat} {value : V} (hdecode : decode k = .job value)
    (htype : binding.typeOf value = binding.jobType) :
    (∃ expired, binding.outcomes describe decode handle k = .returned expired) ∨
      ∃ expired error, binding.HandlerRaises (decode k) (handle k) error ∧
        binding.outcomes describe decode handle k = caught (.raised expired error) := by
  rw [outcomes_handled hdecode htype]
  cases hhandle : handle k value with
  | returned expired => exact .inl ⟨expired, rfl⟩
  | raised expired error => exact .inr ⟨expired, error, ⟨value, expired, hdecode, htype, hhandle⟩, rfl⟩

-- A handler whose errors other clauses take gives neither of the two outcomes.
theorem handled_other {k : Nat} {value : V} (hdecode : decode k = .job value)
    (htype : binding.typeOf value = binding.jobType)
    (hhandler : ∀ error, binding.HandlerRaises (decode k) (handle k) error → error.cls.clause ≠ .job) :
    (∀ details, binding.outcomes describe decode handle k ≠ .invalidMessageError details) ∧
      binding.outcomes describe decode handle k ≠ .jobDefinitionError := by
  obtain ⟨expired, hreturned⟩ | ⟨expired, error, hraises, hcaught⟩ :=
    handled_cases describe handle hdecode htype
  · rw [hreturned]
    exact ⟨fun details heq => (by cases heq), fun heq => (by cases heq)⟩
  · rw [hcaught]
    exact caught_other expired (hhandler error hraises)

-- A rejected payload that ends the run as one was rejected plainly.
theorem plainly_of_outcomes {k : Nat} {details : ErrorDetails F} (hrejects : Rejects (decode k))
    (h : binding.outcomes describe decode handle k = .invalidMessageError details) :
    RejectsPlainly (decode k) := by
  refine ⟨hrejects, fun error hdecode hjob => ?_⟩
  have hexecute : binding.execute describe (decode k) (handle k) = .raised false error := by
    rw [hdecode]
    exact if_pos hjob
  rw [Binding.outcomes, hexecute] at h
  exact caught_invalid h

theorem rejects_of_outcomes {k : Nat} {details : ErrorDetails F}
    (hhandler : ∀ error, binding.HandlerRaises (decode k) (handle k) error → error.cls.clause ≠ .job)
    (h : binding.outcomes describe decode handle k = .invalidMessageError details) :
    RejectsPlainly (decode k) := by
  obtain hrejects | hbreaks | ⟨value, hdecode, htype⟩ := decoded_cases binding decode k
  · exact plainly_of_outcomes hrejects h
  · rw [outcomes_breaks describe handle hbreaks] at h
    cases h
  · exact absurd h ((handled_other hdecode htype hhandler).1 details)

-- The worker tells them apart exactly when no handler raises an error that the clause of the decoder's
-- errors takes, and a rejected payload is rejected plainly in an attempt that is made.
theorem separates_iff : binding.Separates policy describe decode handle ↔
    (∀ k error, Made policy (binding.outcomes describe decode handle) k →
      binding.HandlerRaises (decode k) (handle k) error → error.cls.clause ≠ .job) ∧
    ((∃ k, Made policy (binding.outcomes describe decode handle) k ∧ Rejects (decode k)) →
      ∃ k, Made policy (binding.outcomes describe decode handle) k ∧ RejectsPlainly (decode k)) := by
  constructor
  · rintro ⟨hpayload, -, hseparate⟩
    have hhandlers : ∀ k error, Made policy (binding.outcomes describe decode handle) k →
        binding.HandlerRaises (decode k) (handle k) error → error.cls.clause ≠ .job := by
      intro k error hmade hraises hclause
      obtain ⟨expired, houtcome⟩ := handlerRaises_outcomes describe hraises
      rw [caught_job expired hclause] at houtcome
      split_ifs at houtcome with hdefinition
      · have hfinal := final_of_not_retried hmade (by rw [houtcome]; rfl)
        have hescapes := (definitionEscapes_iff hmade hfinal).mpr houtcome
        exact (hseparate k error hmade hraises hfinal).2 hescapes
      · have hfinal := final_of_not_retried hmade (by rw [houtcome]; rfl)
        have hinvalid := (invalidPayload_iff hmade hfinal).mpr ⟨error.details, houtcome⟩
        exact (hseparate k error hmade hraises hfinal).1 hinvalid
    refine ⟨hhandlers, fun hrejected => ?_⟩
    obtain ⟨n, hmade, hfinal⟩ := exists_made policy (binding.outcomes describe decode handle)
    obtain ⟨details, hdetails⟩ := (invalidPayload_iff hmade hfinal).mp (hpayload.mpr hrejected)
    exact ⟨n, hmade, rejects_of_outcomes (fun error => hhandlers n error hmade) hdetails⟩
  · rintro ⟨hhandlers, hplainly⟩
    obtain ⟨n, hmade, hfinal⟩ := exists_made policy (binding.outcomes describe decode handle)
    refine ⟨⟨fun h => ?_, fun h => ?_⟩, ⟨fun h => ?_, ?_⟩, fun k error hk hraises hkfinal => ?_⟩
    · obtain ⟨details, hdetails⟩ := (invalidPayload_iff hmade hfinal).mp h
      exact ⟨n, hmade, (rejects_of_outcomes (fun error => hhandlers n error hmade) hdetails).1⟩
    · obtain ⟨k, hk, hrejects⟩ := hplainly h
      obtain ⟨details, hdetails⟩ := outcomes_rejects binding describe handle hrejects
      have hkfinal := final_of_not_retried hk (by rw [hdetails]; rfl)
      exact (invalidPayload_iff hk hkfinal).mpr ⟨details, hdetails⟩
    · have hdefinition := (definitionEscapes_iff hmade hfinal).mp h
      obtain hrejects | hbreaks | ⟨value, hdecode, htype⟩ := decoded_cases binding decode n
      · -- the attempt of the plain rejection is the last one, and no broken definition
        obtain ⟨k, hk, hrejects⟩ := hplainly ⟨n, hmade, hrejects⟩
        obtain ⟨details, hdetails⟩ := outcomes_rejects binding describe handle hrejects
        have hkfinal := final_of_not_retried hk (by rw [hdetails]; rfl)
        obtain rfl := made_unique hk hkfinal hmade hfinal
        rw [hdefinition] at hdetails
        cases hdetails
      · exact ⟨n, hmade, hbreaks⟩
      · have hhandler : ∀ error, binding.HandlerRaises (decode n) (handle n) error →
            error.cls.clause ≠ .job := fun error => hhandlers n error hmade
        exact absurd hdefinition (handled_other hdecode htype hhandler).2
    · rintro ⟨k, hk, hbreaks⟩
      have hdefinition := outcomes_breaks describe handle hbreaks
      have hkfinal := final_of_not_retried hk (by rw [hdefinition]; rfl)
      exact (definitionEscapes_iff hk hkfinal).mpr hdefinition
    · obtain ⟨expired, houtcome⟩ := handlerRaises_outcomes describe hraises
      have hother := caught_other expired (hhandlers k error hk hraises)
      rw [← houtcome] at hother
      constructor
      · intro h
        obtain ⟨details, hdetails⟩ := (invalidPayload_iff hk hkfinal).mp h
        exact hother.1 details hdetails
      · exact fun h => hother.2 ((definitionEscapes_iff hk hkfinal).mp h)

end Classification

def unitBinding : Binding Unit Unit := ⟨(), fun _ => ()⟩

-- The message that a handler dispatches is too large: the codec raises `InvalidMessageError`, and the
-- handler passes it on.
def tooLarge : PyError Unit where
  cls := .derived [.invalidMessageError]
  details := { errorType := "InvalidMessageError", stacktrace := [] }

-- A decoder has a class of its own for data that it reads too slowly.
def tooSlow : PyError Unit where
  cls := .derived [.jobDecodeError, .timeoutError]
  details := { errorType := "PayloadTimeoutError", stacktrace := [] }

theorem nested_dispatch_misclassified :
    ¬ unitBinding.Separates {} (fun _ => tooLarge.details) (fun _ => .job ())
        (fun _ _ => .raised false tooLarge) ∧
      ¬ unitBinding.Separates {} (fun _ => tooSlow.details) (fun _ => .raised tooSlow)
        (fun _ _ => .returned false) := by
  constructor
  · rintro ⟨-, -, hseparate⟩
    have hmade : Made {} (unitBinding.outcomes (fun _ => tooLarge.details) (fun _ => .job ())
        (fun _ _ => .raised false tooLarge)) 1 :=
      ⟨Nat.le_refl 1, by decide, fun j hj hlt => by omega⟩
    obtain ⟨hinvalid, -⟩ := hseparate 1 tooLarge hmade ⟨(), false, rfl, rfl, rfl⟩
      ⟨Nat.le_refl 1, .inr (by decide)⟩
    exact hinvalid ⟨_, rfl, rfl⟩
  · rintro ⟨hpayload, -⟩
    have hmade : Made {} (unitBinding.outcomes (fun _ => tooSlow.details) (fun _ => .raised tooSlow)
        (fun _ _ => .returned false)) 1 :=
      ⟨Nat.le_refl 1, by decide, fun j hj hlt => by omega⟩
    obtain ⟨result, hresult, hreason⟩ := hpayload.mpr ⟨1, hmade, tooSlow, rfl, .inl rfl⟩
    obtain rfl := Except.ok.inj hresult
    cases hreason

end Scaffold.Worker
