import Mathlib.Tactic.Common

namespace Scaffold.Queue

abbrev Bytes := List UInt8

abbrev Uuid := BitVec 128

-- `D` is the type of datetimes.
structure MessageEnvelope (D : Type*) where
  jobId : Uuid
  jobType : String
  jobVersion : Int
  payload : Bytes
  enqueuedAt : D
  correlationId : Option String := none
  replayOf : Option Uuid := none
  deriving DecidableEq, Repr

-- `F` is the type of the frames of a stored stack trace.
structure FailedJobRecord (D F : Type*) where
  failureId : Uuid
  payload : Bytes
  connection : String
  queue : String
  failedAt : D
  attempts : Nat
  reason : String
  jobId : Option Uuid := none
  errorType : Option String := none
  stacktrace : List F := []
  deriving DecidableEq, Repr

def isQueueChar (c : Char) : Bool :=
  ('A' ≤ c ∧ c ≤ 'Z') ∨ ('a' ≤ c ∧ c ≤ 'z') ∨ ('0' ≤ c ∧ c ≤ '9') ∨ c = '.' ∨ c = '_' ∨ c = '-'

def validateQueueName (value : String) : Option String :=
  if value = "" ∨ 200 < value.length then none
  else if value = "." ∨ value = ".." ∨ ¬ value.toList.all isQueueChar then none
  else some value

def validateWorkerConcurrency (value : Int) : Option Int :=
  if 1 ≤ value ∧ value ≤ 1024 then some value else none

end Scaffold.Queue
