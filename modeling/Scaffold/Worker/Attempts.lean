import Scaffold.Worker.Executor

namespace Scaffold.Worker

-- `items[index]` of a tuple; a negative index counts from the end.
def subscript {α : Type} (items : List α) (index : Int) : Option α :=
  if 0 ≤ index then items[index.toNat]?
  else if -items.length ≤ index then items[(items.length + index).toNat]?
  else none

-- `JobPolicy.retry_delay`, which has no value when the index is out of range. The last delay is used
-- again when there are more failures than delays.
def JobPolicy.subscriptedDelay (policy : JobPolicy) (failedAttempt : Int) : Option Rat :=
  if policy.backoffSeconds = [] then some 0
  else subscript policy.backoffSeconds (min (failedAttempt - 1) (policy.backoffSeconds.length - 1))

inductive AttemptEvent where
  | execute (attempt : Nat)
  | sleep (seconds : Rat)
  deriving DecidableEq

-- What `run_attempts` may raise: an error that it passes on, or one of its own.
inductive AttemptsError where
  | execution (error : ExecError)
  | indexError
  | assertionError
  | runtimeError
  deriving DecidableEq

-- How the `try` statement of one attempt is left.
inductive TryExit (F : Type) where
  | returns (result : ExecutionResult F)
  | raises (error : ExecError)
  | continues (reason : FailureReason) (failureError : Option (ErrorDetails F))

section Loop

variable {F : Type}

def tryAttempt (attempt : Nat) : AttemptOutcome F → TryExit F
  | .returned expired =>
      if expired then .returns { attempts := attempt, failureReason := some .timeoutSuppressed }
      else .returns { attempts := attempt }
  | .retryableJobError error => .continues .retryExhausted (some error)
  | .timeoutError expired error =>
      if expired then .continues .executionTimeout (some error)
      else .returns (failedResult attempt .handlerTimeoutError error)
  | .invalidMessageError error => .returns (failedResult attempt .invalidJobPayload error)
  | .jobDefinitionError => .raises .jobDefinition
  | .exception error => .returns (failedResult attempt .handlerError error)
  | .baseException => .raises .raised

-- The loop over the remaining attempts, with everything it executes and every sleep.
def attemptLoop (policy : JobPolicy) (outcomes : Nat → AttemptOutcome F) :
    List Nat → List AttemptEvent × Except AttemptsError (ExecutionResult F)
  | [] => ([], .error .runtimeError)
  | attempt :: rest =>
      match tryAttempt attempt (outcomes attempt) with
      | .returns result => ([.execute attempt], .ok result)
      | .raises error => ([.execute attempt], .error (.execution error))
      | .continues reason failureError =>
          if attempt = policy.maxAttempts then
            match failureError with
            | none => ([.execute attempt], .error .assertionError)
            | some error => ([.execute attempt], .ok (failedResult attempt reason error))
          else
            match policy.subscriptedDelay attempt with
            | none => ([.execute attempt], .error .indexError)
            | some delay =>
                let (events, result) := attemptLoop policy outcomes rest
                (.execute attempt :: .sleep delay :: events, result)

-- `run_attempts`, where `outcomes attempt` is how the execution of the binding ends.
def runAttempts (policy : JobPolicy) (outcomes : Nat → AttemptOutcome F) :
    List AttemptEvent × Except AttemptsError (ExecutionResult F) :=
  attemptLoop policy outcomes (List.range' 1 policy.maxAttempts)

end Loop

-- The exception classes that the worker tells apart.
inductive ErrorClass where
  | queueError
  | queueConfigurationError
  | invalidMessageError
  | jobDecodeError
  | jobResolutionError
  | unknownJobError
  | unsupportedJobVersionError
  | jobDefinitionError
  | deliveryLostError
  | retryableJobError
  | timeoutError
  | validationError
  | exception
  deriving DecidableEq, Repr

def ErrorClass.base : ErrorClass → Option ErrorClass
  | .queueConfigurationError | .invalidMessageError | .jobResolutionError | .jobDefinitionError
  | .deliveryLostError | .retryableJobError => some .queueError
  | .jobDecodeError => some .invalidMessageError
  | .unknownJobError | .unsupportedJobVersionError => some .jobResolutionError
  | .queueError | .timeoutError | .validationError => some .exception
  | .exception => none

-- `issubclass` for two of them; none has more than three bases.
def ErrorClass.isInstance (cls target : ErrorClass) : Bool :=
  cls = target || cls.base = some target || (cls.base.bind base) = some target ||
    ((cls.base.bind base).bind base) = some target

theorem ErrorClass.isInstance_base {cls target base : ErrorClass} (h : cls.isInstance target = true)
    (hbase : target.base = some base) : cls.isInstance base = true := by
  cases target with
  | exception => cases hbase
  | _ =>
      obtain rfl := Option.some.inj hbase
      cases cls <;> first
        | rfl
        | cases h

-- The class of an error. It may be derived from several of the classes above: `isInstance` are those
-- that it is a subclass of.
structure PyClass where
  isInstance : ErrorClass → Bool
  exception : isInstance .exception = true
  closed : ∀ target base, isInstance target = true → target.base = some base → isInstance base = true

-- A class with these bases.
def PyClass.derived (bases : List ErrorClass) : PyClass where
  isInstance target := target = .exception || bases.any (·.isInstance target)
  exception := rfl
  closed := by
    intro target base htarget hbase
    simp only [Bool.or_eq_true, decide_eq_true_eq, List.any_eq_true] at htarget ⊢
    obtain rfl | ⟨cls, hcls, hinstance⟩ := htarget
    · cases hbase
    · exact .inr ⟨cls, hcls, ErrorClass.isInstance_base hinstance hbase⟩

structure PyError (F : Type) where
  cls : PyClass
  details : ErrorDetails F

-- What the decoder of a binding and the handler of a job do in one attempt. `expired` is the
-- answer of the timer when the handler has ended.
inductive Decoded (V F : Type) where
  | job (value : V)
  | raised (error : PyError F)

inductive Handled (F : Type) where
  | returned (expired : Bool)
  | raised (expired : Bool) (error : PyError F)

-- A binding: the job type of its descriptor, and the type of a decoded object.
structure Binding (V T : Type) where
  jobType : T
  typeOf : V → T

section Binding

variable {V T F : Type} [DecidableEq T]

-- `JobBinding.execute`. `describe` are the details of an error that is raised here.
def Binding.execute (binding : Binding V T) (describe : ErrorClass → ErrorDetails F) (decoded : Decoded V F)
    (handle : V → Handled F) : Handled F :=
  match decoded with
  | .raised error =>
      if error.cls.isInstance .jobDecodeError then .raised false error
      else if error.cls.isInstance .invalidMessageError ∨ error.cls.isInstance .validationError then
        .raised false ⟨.derived [.jobDecodeError], describe .jobDecodeError⟩
      else .raised false ⟨.derived [.jobDefinitionError], describe .jobDefinitionError⟩
  | .job value =>
      if binding.typeOf value ≠ binding.jobType then
        .raised false ⟨.derived [.jobDefinitionError], describe .jobDefinitionError⟩
      else handle value

-- The `except` clauses of `run_attempts` in their order.
def caught : Handled F → AttemptOutcome F
  | .returned expired => .returned expired
  | .raised expired error =>
      if error.cls.isInstance .retryableJobError then .retryableJobError error.details
      else if error.cls.isInstance .timeoutError then .timeoutError expired error.details
      else if error.cls.isInstance .invalidMessageError ∨ error.cls.isInstance .jobDefinitionError then
        if error.cls.isInstance .jobDefinitionError then .jobDefinitionError
        else .invalidMessageError error.details
      else .exception error.details

end Binding

end Scaffold.Worker
