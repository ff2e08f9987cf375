import Scaffold.Pool
import Scaffold.Python.Repr
import Scaffold.Queue.Contracts

namespace Scaffold.Worker

open Python (uuidText)
open Queue (Bytes Uuid MessageEnvelope FailedJobRecord)

structure JobPolicy where
  maxAttempts : Nat := 3
  backoffSeconds : List Rat := [1, 5]
  timeoutSeconds : Rat := 30
  attempted : 1 ≤ maxAttempts := by decide
  backoff : ∀ delay ∈ backoffSeconds, 0 ≤ delay := by decide
  timeout : 0 < timeoutSeconds := by decide

inductive FailureReason where
  | invalidEnvelope
  | unknownJob
  | unsupportedJobVersion
  | timeoutSuppressed
  | retryExhausted
  | handlerTimeoutError
  | executionTimeout
  | invalidJobPayload
  | handlerError
  deriving DecidableEq, Repr

def FailureReason.text : FailureReason → String
  | .invalidEnvelope => "invalid_envelope"
  | .unknownJob => "unknown_job"
  | .unsupportedJobVersion => "unsupported_job_version"
  | .timeoutSuppressed => "timeout_suppressed"
  | .retryExhausted => "retry_exhausted"
  | .handlerTimeoutError => "handler_timeout_error"
  | .executionTimeout => "execution_timeout"
  | .invalidJobPayload => "invalid_job_payload"
  | .handlerError => "handler_error"

-- What `safe_exception_details` keeps of an exception.
structure ErrorDetails (F : Type) where
  errorType : String
  stacktrace : List F
  deriving DecidableEq, Repr

structure ExecutionResult (F : Type) where
  attempts : Nat
  failureReason : Option FailureReason := none
  errorType : Option String := none
  stacktrace : List F := []
  deriving DecidableEq, Repr

-- How the block under `asyncio.timeout` ends: `expired` is the timer's answer at that time, and
-- `baseException` a cancellation from outside or another exception that is no `Exception`.
inductive AttemptOutcome (F : Type) where
  | returned (expired : Bool)
  | retryableJobError (error : ErrorDetails F)
  | timeoutError (expired : Bool) (error : ErrorDetails F)
  | invalidMessageError (error : ErrorDetails F)
  | jobDefinitionError
  | exception (error : ErrorDetails F)
  | baseException
  deriving DecidableEq, Repr

inductive ExecError where
  | decoder
  | jobDefinition
  | integrity
  | raised
  | acknowledge
  deriving DecidableEq, Repr

-- The rest of `run_attempts` after an attempt.
inductive AttemptNext (F : Type) where
  | finished (result : ExecutionResult F)
  | retry
  | raised (error : ExecError)

section Attempts

variable {F : Type}

def failedResult (attempts : Nat) (reason : FailureReason) (error : ErrorDetails F) :
    ExecutionResult F where
  attempts := attempts
  failureReason := some reason
  errorType := some error.errorType
  stacktrace := error.stacktrace

def retryOr (policy : JobPolicy) (attempt : Nat) (reason : FailureReason) (error : ErrorDetails F) :
    AttemptNext F :=
  if attempt = policy.maxAttempts then .finished (failedResult attempt reason error) else .retry

def afterAttempt (policy : JobPolicy) (attempt : Nat) : AttemptOutcome F → AttemptNext F
  | .returned expired =>
      if expired then .finished { attempts := attempt, failureReason := some .timeoutSuppressed }
      else .finished { attempts := attempt }
  | .retryableJobError error => retryOr policy attempt .retryExhausted error
  | .timeoutError expired error =>
      if expired then retryOr policy attempt .executionTimeout error
      else .finished (failedResult attempt .handlerTimeoutError error)
  | .invalidMessageError error => .finished (failedResult attempt .invalidJobPayload error)
  | .jobDefinitionError => .raised .jobDefinition
  | .exception error => .finished (failedResult attempt .handlerError error)
  | .baseException => .raised .raised

end Attempts

structure Delivery where
  payload : Bytes
  possiblyRedelivered : Bool
  deriving DecidableEq, Repr

inductive DecodeError where
  | invalidMessage
  | raised

-- The executor's place and the functions it calls that are not its own: the envelope codec, the
-- digest and the two name functions of the standard library.
structure ExecutorConfig (D : Type) where
  connection : String
  queue : String
  decode : Bytes → Except DecodeError (MessageEnvelope D)
  sha256 : Bytes → String
  uuid5 : String → Uuid
  printable : Char → Bool

-- A delivery with its decoded envelope.
structure Received (D : Type) where
  delivery : Delivery
  message : Option (MessageEnvelope D)

section Identity

variable {D : Type} (config : ExecutorConfig D)

def identity (w : Received D) : String :=
  match w.message with
  | none => "raw:" ++ config.sha256 w.delivery.payload
  | some message => uuidText message.jobId

def failureId (w : Received D) : Uuid :=
  config.uuid5 (Python.reprTuple config.printable
    ["queue-failure", config.connection, config.queue, identity config w])

end Identity

section Received

variable {D : Type}

-- A delivery as `execute` takes it up, unless the decoder raises.
def received (config : ExecutorConfig D) (delivery : Delivery) : Received D where
  delivery := delivery
  message := (config.decode delivery.payload).toOption

-- The text that is hashed into the id of a failure.
def failureText (printable : Char → Bool) (connection queue identity : String) : String :=
  Python.reprTuple printable ["queue-failure", connection, queue, identity]

end Received

-- The await at which an execution is. `resolving` and `finishing` are the stretches before the
-- first attempt and before the failure is saved; `found`, `inserted` and `refound` leave the
-- database session whose statement has been executed.
inductive ExecPhase (D F : Type) where
  | idle
  | finding (w : Received D)
  | found (w : Received D) (record : Option (FailedJobRecord D F))
  | resolving (w : Received D)
  | attempting (w : Received D) (policy : JobPolicy) (attempt : Nat)
  | sleeping (w : Received D) (policy : JobPolicy) (attempt : Nat)
  | finishing (w : Received D) (result : ExecutionResult F)
  | saving (w : Received D) (record : FailedJobRecord D F)
  | inserting (w : Received D) (record : FailedJobRecord D F)
  | inserted (w : Received D) (record : FailedJobRecord D F)
  | refinding (w : Received D) (record : FailedJobRecord D F)
  | refound (w : Received D) (record : FailedJobRecord D F) (seen : Option (FailedJobRecord D F))
  | acknowledging (w : Received D)
  | done (w : Received D) (outcome : Except ExecError Unit)

-- An execution, with the end of its last attempt, whether it has called the resolver, the failure
-- record that it has committed or read, and its calls of `acknowledge`.
structure Execution (D F : Type) where
  phase : ExecPhase D F := .idle
  last : Option (AttemptOutcome F) := none
  resolved : Bool := false
  seen : Option (FailedJobRecord D F) := none
  acknowledges : Nat := 0

-- The table of failures, and the write lock of each store instance.
structure FailureStore (D F I T : Type) where
  records : Uuid → Option (FailedJobRecord D F) := fun _ => none
  writeLock : I → Option T := fun _ => none

inductive Resolution where
  | binding (policy : JobPolicy)
  | unknownJob
  | unsupportedJobVersion
  | jobDefinitionError
  | raised

inductive ExecAct (D F : Type) where
  | execute (delivery : Delivery)
  | get
  | returns
  | resolve (answer : Resolution)
  | attemptEnds (outcome : AttemptOutcome F)
  | slept
  | finish (now : D)
  | acquire
  | commit
  | integrityError
  | acknowledged
  | raises (applied : Bool)

-- Other executors and the console.
inductive StoreEvent (D F : Type) where
  | save (record : FailedJobRecord D F)
  | delete (failureId : Uuid)

section Execute

variable {D F I T : Type} [DecidableEq I] [DecidableEq T] (config : ExecutorConfig D) (home : T → I)

abbrev ExecNext (D F I T : Type) := FailureStore D F I T × Execution D F

-- The insert of a row, which the primary key refuses when the id is taken.
def insertRecord (s : FailureStore D F I T) (record : FailedJobRecord D F) : FailureStore D F I T :=
  if (s.records record.failureId).isSome then s
  else { s with records := Function.update s.records record.failureId (some record) }

def leaveLock (s : FailureStore D F I T) (t : T) : FailureStore D F I T :=
  { s with writeLock := fun i => if s.writeLock i = some t then none else s.writeLock i }

def fail (s : FailureStore D F I T) (t : T) (l : Execution D F) (w : Received D) (error : ExecError) :
    ExecNext D F I T :=
  (leaveLock s t, { l with phase := .done w (.error error) })

def callAcknowledge (s : FailureStore D F I T) (l : Execution D F) (w : Received D) : ExecNext D F I T :=
  (s, { l with phase := .acknowledging w, acknowledges := l.acknowledges + 1 })

-- The way on when no record of the failure was found or looked for.
def proceed (s : FailureStore D F I T) (l : Execution D F) (w : Received D) : ExecNext D F I T :=
  match w.message with
  | none => (s, { l with phase := .finishing w { attempts := 0, failureReason := some .invalidEnvelope } })
  | some _ => (s, { l with phase := .resolving w })

-- Only a delivery that may be a second one is looked up.
def lookUp (s : FailureStore D F I T) (l : Execution D F) (w : Received D) : ExecNext D F I T :=
  if w.delivery.possiblyRedelivered then (s, { l with phase := .finding w }) else proceed s l w

-- `execute` up to its first await.
def begin (s : FailureStore D F I T) (t : T) (l : Execution D F) (delivery : Delivery) : ExecNext D F I T :=
  match config.decode delivery.payload with
  | .error .raised => fail s t l ⟨delivery, none⟩ .decoder
  | .error .invalidMessage => lookUp s l ⟨delivery, none⟩
  | .ok message => lookUp s l ⟨delivery, some message⟩

def resolve (s : FailureStore D F I T) (t : T) (l : Execution D F) (w : Received D) :
    Resolution → ExecNext D F I T
  | .binding policy => (s, { l with phase := .attempting w policy 1, resolved := true })
  | .unknownJob =>
      (s, { l with
        phase := .finishing w { attempts := 0, failureReason := some .unknownJob }, resolved := true })
  | .unsupportedJobVersion =>
      (s, { l with
        phase := .finishing w { attempts := 0, failureReason := some .unsupportedJobVersion }
        resolved := true })
  | .jobDefinitionError => fail s t { l with resolved := true } w .jobDefinition
  | .raised => fail s t { l with resolved := true } w .raised

def attemptEnds (s : FailureStore D F I T) (t : T) (l : Execution D F) (w : Received D)
    (policy : JobPolicy) (attempt : Nat) (outcome : AttemptOutcome F) : ExecNext D F I T :=
  match afterAttempt policy attempt outcome with
  | .finished result => (s, { l with phase := .finishing w result, last := some outcome })
  | .retry => (s, { l with phase := .sleeping w policy attempt, last := some outcome })
  | .raised error => fail s t { l with last := some outcome } w error

-- `_finish` up to its first await.
def finish (s : FailureStore D F I T) (l : Execution D F) (w : Received D) (result : ExecutionResult F)
    (now : D) : ExecNext D F I T :=
  match result.failureReason with
  | none => callAcknowledge s l w
  | some reason =>
      (s, { l with phase := .saving w {
        failureId := failureId config w
        payload := w.delivery.payload
        connection := config.connection
        queue := config.queue
        failedAt := now
        attempts := result.attempts
        reason := reason.text
        jobId := w.message.map (·.jobId)
        errorType := result.errorType
        stacktrace := result.stacktrace } })

def ExecPhase.work : ExecPhase D F → Option (Received D)
  | .idle => none
  | .finding w => some w
  | .found w _ => some w
  | .resolving w => some w
  | .attempting w _ _ => some w
  | .sleeping w _ _ => some w
  | .finishing w _ => some w
  | .saving w _ => some w
  | .inserting w _ => some w
  | .inserted w _ => some w
  | .refinding w _ => some w
  | .refound w _ _ => some w
  | .acknowledging w => some w
  | .done w _ => some w

-- An exception or a cancellation at an await. A commit that raises may have been applied.
def raises (s : FailureStore D F I T) (t : T) (l : Execution D F) (applied : Bool) :
    Option (ExecNext D F I T) :=
  match l.phase with
  | .idle => none
  | .done _ _ => none
  | .resolving _ => none
  | .finishing _ _ => none
  | .attempting _ _ _ => none
  | .acknowledging w => some (fail s t l w .acknowledge)
  | .inserting w record =>
      if applied then some (fail (insertRecord s record) t l w .raised) else some (fail s t l w .raised)
  | .finding w => some (fail s t l w .raised)
  | .found w _ => some (fail s t l w .raised)
  | .sleeping w _ _ => some (fail s t l w .raised)
  | .saving w _ => some (fail s t l w .raised)
  | .inserted w _ => some (fail s t l w .raised)
  | .refinding w _ => some (fail s t l w .raised)
  | .refound w _ _ => some (fail s t l w .raised)

def execStep (t : T) (s : FailureStore D F I T) (l : Execution D F) :
    ExecAct D F → Option (ExecNext D F I T)
  | .execute delivery =>
      match l.phase with
      | .idle => some (begin config s t l delivery)
      | _ => none
  | .get =>
      match l.phase with
      | .finding w =>
          let row := s.records (failureId config w)
          some (s, { l with phase := .found w row, seen := row })
      | .refinding w record =>
          let row := s.records record.failureId
          some (s, { l with phase := .refound w record row, seen := row })
      | _ => none
  | .returns =>
      match l.phase with
      | .found w (some _) => some (callAcknowledge s l w)
      | .found w none => some (proceed s l w)
      | .inserted w _ => some (callAcknowledge (leaveLock s t) l w)
      | .refound w _ (some _) => some (callAcknowledge (leaveLock s t) l w)
      | .refound w _ none => some (fail s t l w .integrity)
      | _ => none
  | .resolve answer =>
      match l.phase with
      | .resolving w => some (resolve s t l w answer)
      | _ => none
  | .attemptEnds outcome =>
      match l.phase with
      | .attempting w policy attempt => some (attemptEnds s t l w policy attempt outcome)
      | _ => none
  | .slept =>
      match l.phase with
      | .sleeping w policy attempt => some (s, { l with phase := .attempting w policy (attempt + 1) })
      | _ => none
  | .finish now =>
      match l.phase with
      | .finishing w result => some (finish config s l w result now)
      | _ => none
  | .acquire =>
      match l.phase with
      | .saving w record =>
          if s.writeLock (home t) = none then
            some ({ s with writeLock := Function.update s.writeLock (home t) (some t) },
              { l with phase := .inserting w record })
          else none
      | _ => none
  | .commit =>
      match l.phase with
      | .inserting w record =>
          if (s.records record.failureId).isNone then
            some (insertRecord s record, { l with phase := .inserted w record, seen := some record })
          else none
      | _ => none
  | .integrityError =>
      match l.phase with
      | .inserting w record => some (s, { l with phase := .refinding w record })
      | _ => none
  | .acknowledged =>
      match l.phase with
      | .acknowledging w => some (s, { l with phase := .done w (.ok ()) })
      | _ => none
  | .raises applied => raises s t l applied

def storeEvent (s : FailureStore D F I T) : StoreEvent D F → Option (FailureStore D F I T)
  | .save record => some (insertRecord s record)
  | .delete id => some { s with records := Function.update s.records id none }

abbrev ExecPool (D F I T : Type) := Pool T (FailureStore D F I T) (Execution D F)

abbrev execPoolStep : ExecPool D F I T → (T × ExecAct D F) ⊕ StoreEvent D F → Option (ExecPool D F I T) :=
  Pool.step (execStep config home) storeEvent

def ExecPool.init (D F I T : Type) : ExecPool D F I T where
  shared := {}
  loc _ := {}

end Execute

end Scaffold.Worker
