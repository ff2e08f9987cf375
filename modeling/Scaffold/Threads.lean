import Scaffold.Machine

namespace Scaffold.Threads

-- `_run_sync` of the local vector drivers: a thread whose caller may be cancelled at any time.

-- The future of `asyncio.shield` that a task awaits.
inductive Future where
  | pending
  | resolved
  | cancelled
  deriving DecidableEq, Repr

-- A suspended task: what it awaits, and the mark that `Task.cancel` leaves when the future is done.
structure Wait where
  future : Future := .pending
  mustCancel : Bool := false
  deriving DecidableEq, Repr

def Wait.cancel (wait : Wait) : Wait :=
  if wait.future = .pending then { wait with future := .cancelled } else { wait with mustCancel := true }

-- The await raises `CancelledError`.
def Wait.cancelling (wait : Wait) : Bool := wait.future = .cancelled || wait.mustCancel

section Call

variable (V E : Type)

inductive Outcome where
  | returned (value : V)
  | raised (error : E)
  | cancelled

-- The thread of `on_cancel`.
inductive Cleanup where
  | none
  | created (value : V)
  | called
  | finished (result : Except E Unit)

-- The await at which the coroutine is suspended: the shield of the operation, `_finish_worker` of
-- the operation, or `_finish_worker` of the cleanup.
inductive Phase where
  | awaiting
  | finishing
  | cleaning
  | ended (outcome : Outcome V E)

-- A call with its threads. `calls` are the values that `on_cancel` was called with, and `requested`
-- says whether a cancellation was requested.
structure Call where
  phase : Phase V E := .awaiting
  wait : Wait := {}
  work : Option (Except E V) := Option.none
  cleanup : Cleanup V E := .none
  calls : List V := []
  requested : Bool := false

-- `finish` is the end of the operation, `propagate` the callback that resolves the awaited future,
-- `cancel` a request to the caller before it has ended, and `resume` the next step of the coroutine.
inductive Act where
  | finish (result : Except E V)
  | propagate
  | cancel
  | resume
  | callCleanup
  | finishCleanup (result : Except E Unit)

end Call

variable {V E : Type}

def Cleanup.isFinished : Cleanup V E → Bool
  | .finished _ => true
  | _ => false

def Outcome.ofWork : Except E V → Outcome V E
  | .ok value => .returned value
  | .error error => .raised error

-- Whether the task that the coroutine waits for is done.
def Call.awaitedDone (call : Call V E) : Bool :=
  match call.phase with
  | .awaiting | .finishing => call.work.isSome
  | .cleaning => call.cleanup.isFinished
  | .ended _ => false

def Call.ended (call : Call V E) (outcome : Outcome V E) : Call V E := { call with phase := .ended outcome }

-- Behind `_finish_worker(work)`: the cleanup if there is a value to be released, then `raise`.
def Call.afterWork (onCancel : Bool) (call : Call V E) : Call V E :=
  match call.work with
  | some (.ok value) =>
      if onCancel then { call with phase := .cleaning, wait := {}, cleanup := .created value }
      else call.ended .cancelled
  | _ => call.ended .cancelled

-- `_finish_worker(work)` from the test of its loop on.
def Call.finishWork (onCancel : Bool) (call : Call V E) : Call V E :=
  if call.work.isSome then call.afterWork onCancel else { call with phase := .finishing, wait := {} }

-- `_finish_worker(cleanup)` from the test of its loop on.
def Call.finishCleanup (call : Call V E) : Call V E :=
  if call.cleanup.isFinished then call.ended .cancelled else { call with phase := .cleaning, wait := {} }

-- The coroutine goes on with the result of the await, or with `CancelledError`.
def Call.resume (onCancel : Bool) (call : Call V E) : Option (Call V E) :=
  if call.wait.future = .pending then none
  else
    match call.phase with
    | .awaiting =>
        if call.wait.cancelling then some (call.finishWork onCancel)
        else call.work.map fun result => call.ended (.ofWork result)
    | .finishing =>
        -- a cancellation is passed over, and an exception of the operation leaves the loop
        if call.wait.cancelling then some (call.finishWork onCancel)
        else call.work.map fun
          | .ok _ => call.finishWork onCancel
          | .error _ => call.afterWork onCancel
    | .cleaning =>
        if call.wait.cancelling then some call.finishCleanup
        else
          match call.cleanup with
          | .finished (.ok _) => some call.finishCleanup
          | .finished (.error _) => some (call.ended .cancelled)
          | _ => none
    | .ended _ => none

def step (onCancel : Bool) (call : Call V E) : Act V E → Option (Call V E)
  | .finish result => if call.work.isNone then some { call with work := some result } else none
  | .propagate =>
      if call.awaitedDone ∧ call.wait.future = .pending then
        some { call with wait := { call.wait with future := .resolved } }
      else none
  | .cancel =>
      match call.phase with
      | .ended _ => none
      | _ => some { call with wait := call.wait.cancel, requested := true }
  | .resume => call.resume onCancel
  | .callCleanup =>
      match call.cleanup with
      | .created value => some { call with cleanup := .called, calls := call.calls ++ [value] }
      | _ => none
  | .finishCleanup result =>
      match call.cleanup with
      | .called => some { call with cleanup := .finished result }
      | _ => none

-- `PwdlibPasswordHasher._run` is the same without a cleanup.
def hasherStep (call : Call V E) (act : Act V E) : Option (Call V E) := step false call act

end Scaffold.Threads
