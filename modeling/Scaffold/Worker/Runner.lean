import Scaffold.Machine
import Mathlib.Data.Fintype.Card

namespace Scaffold.Worker

-- What a lane or `run` can end with. `raised` is any exception of `receive` or `execute`
-- that is neither a CancelledError nor the DeliveryLostError that the lane itself raises.
inductive LaneError where
  | cancelled
  | deliveryLost
  | raised (code : Nat)
  deriving DecidableEq, Repr

inductive LaneEnd where
  | returned
  | failed (error : LaneError)
  deriving DecidableEq, Repr

-- The await at which a lane task is suspended. `created` has not run yet.
inductive Lane (D : Type*) where
  | created
  | receiving
  | executing (d : D)
  | ended (result : LaneEnd)
  deriving DecidableEq, Repr

inductive RunEnd where
  | returned
  | failed (error : LaneError)
  | group (errors : List LaneError)
  deriving DecidableEq, Repr

-- The await at which `run` is suspended. A `gather` that was cancelled ends only with its
-- last child, and then with CancelledError.
inductive RunPhase where
  | waiting
  | draining
  | gathering (cancelled : Bool)
  | finalGather (outcome : RunEnd) (cancelled : Bool)
  | ended (outcome : RunEnd)
  deriving DecidableEq, Repr

-- The fields after `phase` record the history that the properties speak about: the calls of
-- `receive` and `execute`, the lanes that the runner cancelled and what each was doing, and
-- how `run` was woken.
structure RunnerState (n : Nat) (D : Type*) where
  stop : Bool := false
  stopped : Bool := false
  closing : Bool := false
  receivers : Finset (Fin n) := ∅
  lane : Fin n → Lane D := fun _ => .created
  cancelledEarly : Fin n → Bool := fun _ => false
  phase : RunPhase := .waiting
  receives : Nat := 0
  received : List (Fin n × D) := []
  executed : List (Fin n × D) := []
  running : Nat := 0
  cancels : List (Fin n × Lane D) := []
  wokenByStop : Bool := false
  timedOut : Bool := false
  runCancelled : Bool := false

-- The cancellation of a lane by a driver shows only in what its `receive` or `execute` then
-- does, so it is a `receiveRaises` or an `executeRaises` with `cancelled`.
inductive RunnerAct (n : Nat) (D : Type*) where
  | setStop
  | stoppedEnds
  | startLane (i : Fin n)
  | receiveReturns (i : Fin n) (d : D)
  | receiveRaises (i : Fin n) (error : LaneError)
  | executeReturns (i : Fin n)
  | executeRaises (i : Fin n) (error : LaneError)
  | wakeStop
  | wakeFailed (i : Fin n)
  | drainDone
  | drainTimeout
  | gatherDone
  | finalDone
  | cancelRun
  deriving DecidableEq, Repr

section Runner

variable {n : Nat} {D : Type*}

def Lane.hasEnded : Lane D → Bool
  | .ended _ => true
  | _ => false

def Lane.error : Lane D → Option LaneError
  | .ended (.failed error) => some error
  | _ => none

def Lane.isExecuting : Lane D → Bool
  | .executing _ => true
  | _ => false

def RunnerState.allEnded (s : RunnerState n D) : Bool :=
  (List.finRange n).all fun i => (s.lane i).hasEnded

def setLane (s : RunnerState n D) (i : Fin n) (lane : Lane D) : RunnerState n D :=
  { s with lane := Function.update s.lane i lane }

-- The loop head of `_lane`.
def nextReceive (s : RunnerState n D) (i : Fin n) : RunnerState n D :=
  if s.stop then setLane s i (.ended .returned)
  else { setLane s i .receiving with
    receivers := insert i s.receivers, receives := s.receives + 1 }

-- The handler of `_lane`: a cancellation before the closing phase is a lost delivery.
def raiseLane (s : RunnerState n D) (i : Fin n) (error : LaneError) : RunnerState n D :=
  setLane s i (.ended (.failed
    (if error = .cancelled ∧ s.closing = false then .deliveryLost else error)))

-- `task.cancel()` for every listed lane that has not ended.
def cancelLanes (s : RunnerState n D) (lanes : List (Fin n)) : RunnerState n D :=
  let live := lanes.filter fun i => !(s.lane i).hasEnded
  { s with
    cancelledEarly :=
      fun i => s.cancelledEarly i || (decide (i ∈ live) && decide (s.lane i matches .created))
    cancels := s.cancels ++ live.map fun i => (i, s.lane i) }

-- The `finally` block of `run`, up to its gather.
def enterFinally (s : RunnerState n D) (outcome : RunEnd) : RunnerState n D :=
  { cancelLanes { s with closing := true } (List.finRange n) with
    phase := .finalGather outcome false }

-- The errors that `run` collects from its finished lanes.
def laneErrors (s : RunnerState n D) : List LaneError :=
  ((List.finRange n).filterMap fun i => (s.lane i).error).filter fun error => error ≠ .cancelled

def runnerStep (s : RunnerState n D) : RunnerAct n D → Option (RunnerState n D)
  | .setStop => some { s with stop := true }
  | .stoppedEnds =>
      -- `stop.wait()` returns, or is cancelled by the finally block
      if s.stop || s.phase matches .finalGather _ _ then some { s with stopped := true } else none
  | .startLane i =>
      match s.lane i with
      | .created =>
          if s.cancelledEarly i then some (setLane s i (.ended (.failed .cancelled)))
          else some (nextReceive s i)
      | _ => none
  | .receiveReturns i d =>
      match s.lane i with
      | .receiving =>
          -- no await between the return of `receive` and the call of `execute`
          some { setLane s i (.executing d) with
            receivers := s.receivers.erase i
            received := s.received ++ [(i, d)]
            executed := s.executed ++ [(i, d)]
            running := s.running + 1 }
      | _ => none
  | .receiveRaises i error =>
      match s.lane i with
      | .receiving => some (raiseLane { s with receivers := s.receivers.erase i } i error)
      | _ => none
  | .executeReturns i =>
      match s.lane i with
      | .executing _ => some (nextReceive { s with running := s.running - 1 } i)
      | _ => none
  | .executeRaises i error =>
      match s.lane i with
      | .executing _ => some (raiseLane { s with running := s.running - 1 } i error)
      | _ => none
  | .wakeStop =>
      -- every lane in `done` returned normally
      if s.phase = .waiting ∧ (s.stopped = true ∨ ∃ i, s.lane i matches .ended .returned) ∧
          ∀ i, (s.lane i).error = none then
        some { cancelLanes { s with closing := true } ((List.finRange n).filter (· ∈ s.receivers)) with
          phase := .draining, wokenByStop := true }
      else none
  | .wakeFailed i =>
      if s.phase = .waiting then
        (s.lane i).error.map fun error => enterFinally s (.failed error)
      else none
  | .drainDone =>
      if s.phase = .draining ∧ s.allEnded then some { s with phase := .gathering false } else none
  | .drainTimeout =>
      if s.phase = .draining then
        some { cancelLanes { s with timedOut := true } (List.finRange n) with
          phase := .gathering false }
      else none
  | .gatherDone =>
      match s.phase with
      | .gathering cancelled =>
          if s.allEnded then
            if cancelled then some (enterFinally s (.failed .cancelled))
            else if laneErrors s = [] then some (enterFinally s .returned)
            else some (enterFinally s (.group (laneErrors s)))
          else none
      | _ => none
  | .finalDone =>
      match s.phase with
      | .finalGather outcome cancelled =>
          if s.allEnded && s.stopped then
            some { s with phase := .ended (if cancelled then .failed .cancelled else outcome) }
          else none
      | _ => none
  | .cancelRun =>
      let s := { s with runCancelled := true }
      match s.phase with
      | .waiting => some (enterFinally s (.failed .cancelled))
      | .draining => some (enterFinally s (.failed .cancelled))
      | .gathering _ =>
          some { cancelLanes s (List.finRange n) with phase := .gathering true }
      | .finalGather outcome _ =>
          some { cancelLanes s (List.finRange n) with phase := .finalGather outcome true }
      | .ended _ => none

end Runner

end Scaffold.Worker
