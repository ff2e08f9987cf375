import Scaffold.Machine

namespace Scaffold.Scheduler

inductive CoalescePolicy where
  | latest
  | all
  deriving DecidableEq, Repr

inductive IntervalStartPolicy where
  | immediately
  | afterInterval
  deriving DecidableEq, Repr

inductive CronField where
  | int (n : Int)
  | str (text : String)
  deriving DecidableEq, Repr

structure CronSchedule where
  second : CronField := .int 0
  minute : CronField := .int 0
  hour : CronField := .str "*"
  day : CronField := .str "*"
  month : CronField := .str "*"
  dayOfWeek : String := "*"
  deriving DecidableEq, Repr

structure IntervalSchedule where
  seconds : Nat
  start : IntervalStartPolicy := .afterInterval
  positive : 0 < seconds
  deriving DecidableEq, Repr

inductive ScheduleTrigger where
  | cron (schedule : CronSchedule)
  | interval (schedule : IntervalSchedule)
  deriving DecidableEq, Repr

structure QueueJobSchedule (J : Type*) where
  id : String
  trigger : ScheduleTrigger
  job : J
  connection : Option String := none
  queue : Option String := none
  coalesce : CoalescePolicy := .latest
  misfireGraceSeconds : Nat := 300

-- The two triggers of APScheduler that the engine builds. Times are seconds.
inductive Trigger where
  | cron (schedule : CronSchedule)
  | interval (seconds : Nat) (startDate : Int)
  deriving DecidableEq, Repr

-- The arguments of one dispatcher call.
structure DispatchCall (J : Type*) where
  job : J
  connection : Option String
  queue : Option String

inductive EngineError where
  | alreadyClosed
  | alreadyStarted
  | configuration
  | startFailed
  | registrationFailed
  | stopFailed
  deriving DecidableEq, Repr

-- One `add_job`. The last three fields record the moment of the registration: whether the
-- scheduler was running, whether the engine was closed, and whether the initial dispatch of
-- the definition had ended.
structure Registration (J : Type*) where
  id : String
  call : DispatchCall J
  trigger : Trigger
  coalesce : Bool
  maxInstances : Nat
  misfireGraceTime : Nat
  running : Bool
  closed : Bool
  dispatched : Bool

inductive ApsPhase where
  | created
  | running
  | paused
  | down
  deriving DecidableEq, Repr

inductive DispatchOutcome where
  | returned
  | raised
  | cancelled
  deriving DecidableEq, Repr

-- The task of `_dispatch_initial_then_register` for one id.
inductive InitialPhase (J : Type*) where
  | absent
  | created (d : QueueJobSchedule J)
  | dispatching (d : QueueJobSchedule J)
  | ended (outcome : DispatchOutcome)

-- A coroutine that APScheduler submitted. It calls the dispatcher once for each run time it
-- was submitted with, and not at all for a run time outside the misfire window.
inductive FuturePhase (J : Type*) where
  | absent
  | queued (call : DispatchCall J)
  | calling (call : DispatchCall J)
  | ended

inductive StartPhase where
  | notCalled
  | waiting
  | cancelled
  | returned
  | raised (error : EngineError)
  deriving DecidableEq, Repr

inductive ClosePhase where
  | notCalled
  | gathering (tasks : List String)
  | draining (futures : List Nat)
  | shuttingDown
  | returned
  | raised (error : EngineError)
  deriving DecidableEq, Repr

inductive Origin where
  | initial (id : String)
  | future (f : Nat)
  deriving DecidableEq, Repr

-- `scheduler` says whether `_scheduler` is set; `_executor` and `_shutdown_event` are set and
-- cleared with it. `calls` and `finished` record the dispatcher calls that began and ended,
-- and `cancelled` the futures that were calling when the shutdown cancelled them.
structure EngineState (J : Type*) where
  scheduler : Bool := false
  started : Bool := false
  closed : Bool := false
  aps : ApsPhase := .created
  jobs : List (Registration J) := []
  initial : String → InitialPhase J := fun _ => .absent
  initialDispatches : List String := []
  futures : Nat → FuturePhase J := fun _ => .absent
  pendingFutures : List Nat := []
  start : StartPhase := .notCalled
  close : ClosePhase := .notCalled
  calls : List (Origin × DispatchCall J) := []
  finished : List Origin := []
  cancelled : List Nat := []

-- `clock` is the reading of the local clock and `none` a reading without an offset. `addOk`
-- says whether `add_job` succeeds.
inductive EngineAct where
  | start (clock : String → Option Int) (addOk : String → Bool) (startOk : Bool)
  | initialStarts (id : String)
  | initialEnds (id : String) (outcome : DispatchOutcome) (clock : Option Int) (addOk : Bool)
  | discardInitial (id : String)
  | startWakes
  | cancelStart
  | fire (f : Nat) (job : Nat)
  | futureCalls (f : Nat)
  | futureEnds (f : Nat)
  | discardFuture (f : Nat)
  | aclose (pauseOk : Bool)
  | gatherDone
  | drainDone
  | shutdownRuns
  | acloseWakes

section Engine

variable {J : Type*}

-- The constructor of CronTrigger rejects some fields.
variable (cronValid : CronSchedule → Bool)

def startsImmediately (d : QueueJobSchedule J) : Bool :=
  match d.trigger with
  | .interval schedule => schedule.start = .immediately
  | .cron _ => false

def buildTrigger (clock : Option Int) : ScheduleTrigger → Option Trigger
  | .cron schedule => if cronValid schedule then some (.cron schedule) else none
  | .interval schedule => clock.map fun now => .interval schedule.seconds (now + schedule.seconds)

def buildCallback (d : QueueJobSchedule J) : DispatchCall J where
  job := d.job
  connection := d.connection
  queue := d.queue

def register (s : EngineState J) (clock : Option Int) (addOk : Bool) (d : QueueJobSchedule J) :
    Option (Registration J) :=
  match buildTrigger cronValid clock d.trigger with
  | none => none
  | some trigger =>
      if addOk then
        some {
          id := d.id
          call := buildCallback d
          trigger := trigger
          coalesce := d.coalesce = .latest
          maxInstances := 1
          misfireGraceTime := d.misfireGraceSeconds
          running := s.aps = .running
          closed := s.closed
          dispatched := .initial d.id ∈ s.finished }
      else none

-- The loop of `start` over the definitions: the jobs it added, and the immediate definitions
-- unless one of them raised.
def planDefinitions (s : EngineState J) (clock : String → Option Int) (addOk : String → Bool) :
    List (QueueJobSchedule J) → List (Registration J) × Option (List (QueueJobSchedule J))
  | [] => ([], some [])
  | d :: rest =>
      if startsImmediately d then
        match buildTrigger cronValid (clock d.id) d.trigger with
        | none => ([], none)
        | some _ =>
            let plan := planDefinitions s clock addOk rest
            (plan.1, plan.2.map (d :: ·))
      else
        match register cronValid s (clock d.id) (addOk d.id) d with
        | none => ([], none)
        | some job =>
            let plan := planDefinitions s clock addOk rest
            (job :: plan.1, plan.2)

def InitialPhase.hasEnded : InitialPhase J → Bool
  | .ended _ => true
  | _ => false

def InitialPhase.isLive : InitialPhase J → Bool
  | .created _ => true
  | .dispatching _ => true
  | _ => false

def FuturePhase.hasEnded : FuturePhase J → Bool
  | .ended => true
  | _ => false

def FuturePhase.isLive : FuturePhase J → Bool
  | .queued _ => true
  | .calling _ => true
  | _ => false

def FuturePhase.isCalling : FuturePhase J → Bool
  | .calling _ => true
  | _ => false

-- One task for each immediate definition.
def createInitial (immediate : List (QueueJobSchedule J)) (id : String) : InitialPhase J :=
  match immediate.find? (·.id = id) with
  | some d => .created d
  | none => .absent

def startEngine (definitions : List (QueueJobSchedule J)) (s : EngineState J)
    (clock : String → Option Int) (addOk : String → Bool) (startOk : Bool) : EngineState J :=
  if s.closed then { s with start := .raised .alreadyClosed }
  else if s.scheduler then { s with start := .raised .alreadyStarted }
  else
    match planDefinitions cronValid s clock addOk definitions with
    | (jobs, none) =>
        { s with scheduler := true, jobs := s.jobs ++ jobs, start := .raised .configuration }
    | (jobs, some immediate) =>
        let s := { s with scheduler := true, jobs := s.jobs ++ jobs }
        if startOk then
          { s with
            aps := .running
            started := true
            initial := createInitial immediate
            initialDispatches := immediate.map (·.id)
            start := if immediate = [] then .returned else .waiting }
        else { s with start := .raised .startFailed }

-- The rest of `_dispatch_initial_then_register` after its dispatcher call. Only a
-- cancellation leaves the callback.
def finishInitial (s : EngineState J) (d : QueueJobSchedule J) (outcome : DispatchOutcome)
    (clock : Option Int) (addOk : Bool) : EngineState J :=
  let s := { s with finished := s.finished ++ [.initial d.id] }
  let finish (outcome : DispatchOutcome) :=
    { s with initial := Function.update s.initial d.id (.ended outcome) }
  if outcome = .cancelled then finish .cancelled
  else if s.closed then finish .returned
  else
    match register cronValid s clock addOk d with
    | none => finish .raised
    | some job => { finish .returned with jobs := s.jobs ++ [job] }

-- The loop head of `drain`. With nothing pending `aclose` goes on to request the shutdown.
def drain (s : EngineState J) : EngineState J :=
  if s.pendingFutures = [] then { s with close := .shuttingDown }
  else { s with close := .draining s.pendingFutures }

def acloseEngine (s : EngineState J) (pauseOk : Bool) : EngineState J :=
  let active := s.scheduler && s.started
  let s := { s with scheduler := false, started := false, closed := true }
  if active then
    if pauseOk then
      let s := { s with aps := .paused }
      if s.initialDispatches = [] then drain s
      else { s with close := .gathering s.initialDispatches }
    else { s with close := .raised .stopFailed }
  else { s with close := .returned }

-- The shutdown of the executor cancels the futures it still holds.
def shutdown (s : EngineState J) : EngineState J :=
  { s with
    aps := .down
    cancelled := s.cancelled ++ s.pendingFutures.filter fun f => (s.futures f).isCalling
    futures := fun f =>
      match s.futures f with
      | .queued call => if f ∈ s.pendingFutures then .ended else .queued call
      | phase => phase }

def engineStep (definitions : List (QueueJobSchedule J)) (s : EngineState J) :
    EngineAct → Option (EngineState J)
  | .start clock addOk startOk =>
      if s.start = .notCalled then some (startEngine cronValid definitions s clock addOk startOk)
      else none
  | .initialStarts id =>
      match s.initial id with
      | .created d =>
          some { s with
            initial := Function.update s.initial id (.dispatching d)
            calls := s.calls ++ [(.initial id, buildCallback d)] }
      | _ => none
  | .initialEnds id outcome clock addOk =>
      match s.initial id with
      | .dispatching d => some (finishInitial cronValid s d outcome clock addOk)
      | _ => none
  | .discardInitial id =>
      if (s.initial id).hasEnded then
        some { s with initialDispatches := s.initialDispatches.filter (· ≠ id) }
      else none
  | .startWakes =>
      let tasks := (definitions.filter fun d => startsImmediately d).map fun d => s.initial d.id
      if s.start = .waiting ∧ tasks.all (·.hasEnded) then
        if tasks.all (· matches .ended .returned) then some { s with start := .returned }
        else some { s with start := .raised .registrationFailed }
      else none
  | .cancelStart =>
      -- the gather is shielded, so the tasks go on
      if s.start = .waiting then some { s with start := .cancelled } else none
  | .fire f job =>
      match s.futures f, s.jobs[job]? with
      | .absent, some job =>
          if s.aps = .running then
            some { s with
              futures := Function.update s.futures f (.queued job.call)
              pendingFutures := f :: s.pendingFutures }
          else none
      | _, _ => none
  | .futureCalls f =>
      match s.futures f with
      | .queued call =>
          some { s with
            futures := Function.update s.futures f (.calling call)
            calls := s.calls ++ [(.future f, call)] }
      | .calling call =>
          -- the next of several run times, after the call for the one before has ended
          some { s with
            futures := Function.update s.futures f (.calling call)
            calls := s.calls ++ [(.future f, call)]
            finished := s.finished ++ [.future f] }
      | _ => none
  | .futureEnds f =>
      match s.futures f with
      | .queued _ => some { s with futures := Function.update s.futures f .ended }
      | .calling _ =>
          some { s with
            futures := Function.update s.futures f .ended
            finished := s.finished ++ [.future f] }
      | _ => none
  | .discardFuture f =>
      if (s.futures f).hasEnded then
        some { s with pendingFutures := s.pendingFutures.filter (· ≠ f) }
      else none
  | .aclose pauseOk =>
      if s.close = .notCalled then some (acloseEngine s pauseOk) else none
  | .gatherDone =>
      match s.close with
      | .gathering tasks =>
          if tasks.all fun id => (s.initial id).hasEnded then some (drain s) else none
      | _ => none
  | .drainDone =>
      match s.close with
      | .draining futures =>
          if futures.all fun f => (s.futures f).hasEnded then some (drain s) else none
      | _ => none
  | .shutdownRuns =>
      if s.close = .shuttingDown ∧ s.aps = .paused then some (shutdown s) else none
  | .acloseWakes =>
      if s.close = .shuttingDown ∧ s.aps = .down then some { s with close := .returned } else none

end Engine

end Scaffold.Scheduler
