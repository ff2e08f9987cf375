import Scaffold.Pool

namespace Scaffold.Resources

-- What an await can raise. `closed` is the RuntimeError of a sealed handle, `cancelled` is
-- asyncio.CancelledError, and `raised` is any exception of a factory or a closer.
inductive Failure where
  | closed
  | cancelled
  | raised (code : Nat)
  deriving DecidableEq, Repr

-- One AsyncLazy handle. The asyncio lock is represented by its holder.
-- `made` and `freed` record the results of the successful factory and closer calls.
structure AsyncLazy (V T : Type*) where
  value : Option V := none
  lock : Option T := none
  closed : Bool := false
  made : List V := []
  freed : List V := []
  deriving DecidableEq, Repr

-- `closed` and `groupClosed` are the normal returns of `aclose` and `close_lazy_resources`.
-- `groupFailed` is the BaseExceptionGroup of the collected errors.
inductive Outcome (H V : Type*) where
  | value (h : H) (v : V)
  | closed (h : H)
  | groupClosed (hs : List H)
  | failed (error : Failure)
  | groupFailed (hs : List H) (errors : List Failure)
  deriving DecidableEq, Repr

-- Who awaits an `aclose`: the task itself, or the loop of `close_lazy_resources` over the
-- reversed snapshot, with the handles still to attempt and the errors collected so far.
inductive Frame (H : Type*) where
  | direct
  | group (hs rest : List H) (errors : List Failure)
  deriving DecidableEq, Repr

-- The await at which a task is suspended.
inductive Task (H V : Type*) where
  | idle
  | getLock (h : H)
  | factory (h : H)
  | closeLock (h : H) (frame : Frame H)
  | closer (h : H) (v : V) (frame : Frame H)
  | done (outcome : Outcome H V)
  deriving DecidableEq, Repr

-- A task with the record of its latest group call: every handle whose `aclose` has ended
-- and what it raised.
structure Local (H V : Type*) where
  task : Task H V := .idle
  results : List (H × Option Failure) := []
  deriving DecidableEq, Repr

-- `cancelWait` is a cancellation delivered while a task waits for the lock. A cancellation
-- inside a factory or a closer is `factoryRaises` or `closerRaises` with `cancelled`.
inductive Act (H V : Type*) where
  | get (h : H)
  | aclose (h : H)
  | closeLazyResources (hs : List H)
  | acquire
  | cancelWait
  | factoryReturns (v : V)
  | factoryRaises (error : Failure)
  | closerReturns
  | closerRaises (error : Failure)
  deriving DecidableEq, Repr

section Lazy

variable {H V T : Type*} [DecidableEq H]

abbrev Handles (H V T : Type*) := H → AsyncLazy V T

def Handles.modify (s : Handles H V T) (h : H) (f : AsyncLazy V T → AsyncLazy V T) :
    Handles H V T :=
  Function.update s h (f (s h))

def beginClose (s : Handles H V T) (h : H) : Handles H V T :=
  Handles.modify s h fun lazy => { lazy with closed := true }

def hold (s : Handles H V T) (h : H) (t : T) : Handles H V T :=
  Handles.modify s h fun lazy => { lazy with lock := some t }

def release (s : Handles H V T) (h : H) : Handles H V T :=
  Handles.modify s h fun lazy => { lazy with lock := none }

-- A task makes its next call only after the previous one has ended.
def Task.free : Task H V → Bool
  | .idle => true
  | .done _ => true
  | _ => false

-- `aclose` seals its handle before it waits for the lock.
def startAclose (s : Handles H V T) (l : Local H V) (h : H) (frame : Frame H) :
    Handles H V T × Local H V :=
  (beginClose s h, { l with task := .closeLock h frame })

-- The loop head of `close_lazy_resources`.
def closeNext (s : Handles H V T) (l : Local H V) (hs : List H) (errors : List Failure) :
    List H → Handles H V T × Local H V
  | h :: rest => startAclose s l h (.group hs rest errors)
  | [] =>
      (s, { l with task := .done (if errors = [] then .groupClosed hs else .groupFailed hs errors) })

-- The body of `aclose` has ended, normally or with an exception that the group loop collects.
def finishAclose (s : Handles H V T) (l : Local H V) (h : H) (error : Option Failure) :
    Frame H → Handles H V T × Local H V
  | .direct =>
      (s, { l with task := .done (match error with
        | none => .closed h
        | some error => .failed error) })
  | .group hs rest errors =>
      closeNext s { l with results := l.results ++ [(h, error)] } hs (errors ++ error.toList) rest

-- `get` after the lock has been taken, up to its next await or its end.
def getLocked (t : T) (s : Handles H V T) (l : Local H V) (h : H) : Handles H V T × Local H V :=
  if (s h).closed then (s, { l with task := .done (.failed .closed) })
  else match (s h).value with
    | none => (hold s h t, { l with task := .factory h })
    | some v => (s, { l with task := .done (.value h v) })

-- `aclose` after the lock has been taken, up to its next await or its end.
def acloseLocked (t : T) (s : Handles H V T) (l : Local H V) (h : H) (frame : Frame H) :
    Handles H V T × Local H V :=
  match (s h).value with
  | none => finishAclose s l h none frame
  | some v => (hold s h t, { l with task := .closer h v frame })

-- `get` after the factory has returned: the handle may have been sealed meanwhile.
def factoryReturned (s : Handles H V T) (l : Local H V) (h : H) (v : V) :
    Handles H V T × Local H V :=
  (Handles.modify s h fun lazy =>
      { lazy with value := some v, lock := none, made := lazy.made ++ [v] },
    { l with task := .done (if (s h).closed then .failed .closed else .value h v) })

-- `aclose` after the closer has returned.
def closerReturned (s : Handles H V T) (l : Local H V) (h : H) (v : V) (frame : Frame H) :
    Handles H V T × Local H V :=
  finishAclose (Handles.modify s h fun lazy =>
    { lazy with value := none, lock := none, freed := lazy.freed ++ [v] }) l h none frame

-- The asyncio lock is granted to any waiting task, which covers its queue order.
def taskStep (t : T) (s : Handles H V T) (l : Local H V) :
    Act H V → Option (Handles H V T × Local H V)
  | .get h =>
      if l.task.free then
        if (s h).closed then some (s, { l with task := .done (.failed .closed) })
        else some (s, { l with task := .getLock h })
      else none
  | .aclose h =>
      if l.task.free then some (startAclose s l h .direct) else none
  | .closeLazyResources hs =>
      -- the whole group is sealed before the first await
      if l.task.free then
        some (closeNext (hs.foldl beginClose s) { l with results := [] } hs [] hs.reverse)
      else none
  | .acquire =>
      match l.task with
      | .getLock h => if (s h).lock.isNone then some (getLocked t s l h) else none
      | .closeLock h frame => if (s h).lock.isNone then some (acloseLocked t s l h frame) else none
      | _ => none
  | .cancelWait =>
      match l.task with
      | .getLock _ => some (s, { l with task := .done (.failed .cancelled) })
      | .closeLock h frame => some (finishAclose s l h (some .cancelled) frame)
      | _ => none
  | .factoryReturns v =>
      match l.task with
      | .factory h => some (factoryReturned s l h v)
      | _ => none
  | .factoryRaises error =>
      match l.task with
      | .factory h => some (release s h, { l with task := .done (.failed error) })
      | _ => none
  | .closerReturns =>
      match l.task with
      | .closer h v frame => some (closerReturned s l h v frame)
      | _ => none
  | .closerRaises error =>
      match l.task with
      | .closer h _ frame => some (finishAclose (release s h) l h (some error) frame)
      | _ => none

-- `begin_close` may also be called from outside every task of the pool.
def envStep (s : Handles H V T) (h : H) : Option (Handles H V T) :=
  some (beginClose s h)

abbrev LazyPool (H V T : Type*) := Pool T (Handles H V T) (Local H V)

abbrev step [DecidableEq T] : LazyPool H V T → (T × Act H V) ⊕ H → Option (LazyPool H V T) :=
  Pool.step taskStep envStep

def LazyPool.init (H V T : Type*) : LazyPool H V T where
  shared _ := {}
  loc _ := {}

end Lazy

end Scaffold.Resources
