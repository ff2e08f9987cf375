import Scaffold.Program

namespace Scaffold.Runtime

-- The application container in its hosts.

-- An exception of a callback or of a host, which may be a group.
inductive Failure (E : Type) where
  | error (error : E)
  | group (message : String) (errors : List (Failure E))

-- Its callbacks, by names.
structure ApplicationContainer (C : Type) where
  startupCallbacks : List C := []
  asyncShutdownCallbacks : List C := []
  shutdownCallbacks : List C := []

-- A callback that releases resources.
inductive Release (C : Type) where
  | shutdown (callback : C)
  | close (callback : C)
  deriving DecidableEq

-- What the hosts do besides, which may raise.
inductive Work where
  | serve
  | resolver
  | consume
  | engine
  | registry
  | routes
  | engineStart
  | engineWait
  | engineClose
  | operation
  deriving DecidableEq

inductive Hosting (C : Type) where
  -- the container factory
  | build
  | startup (callback : C)
  | release (release : Release C)
  | work (work : Work)
  deriving DecidableEq

def Answer {C : Type} : Hosting C → Type
  | .build => ApplicationContainer C
  | _ => Unit

-- Of an error the log gets its type and its stack. The application state has the container while it is
-- exposed.
inductive HostRecord (E : Type) where
  | starting
  | startFailed (error : Failure E)
  | discovered
  | started
  | exposed
  | stopping
  | stopFailed (error : Failure E)
  | stopped
  | hidden
  | handlersAdded
  | handlersRemoved

section Hosts

variable {C E : Type}

abbrev Host (C E : Type) : Type 1 := Program (Hosting C) Answer (HostRecord E) (Failure E)

-- The callbacks one after the other; what they raise is collected.
def releaseAll (next : List (Failure E) → Host C E) : List (Release C) → List (Failure E) → Host C E
  | [], errors => next errors
  | release :: rest, errors =>
      .await (.release release) fun answer =>
        match answer with
        | .ok _ => releaseAll next rest errors
        | .error error => releaseAll next rest (errors ++ [error])

def shutdownFailed : List (Failure E) → Option (Failure E)
  | [] => none
  | errors => some (.group "Application shutdown callbacks failed" errors)

namespace ApplicationContainer

variable (container : ApplicationContainer C)

def startFrom (next : Option (Failure E) → Host C E) : List C → Host C E
  | [] => next none
  | callback :: rest =>
      .await (.startup callback) fun answer =>
        match answer with
        | .ok _ => startFrom next rest
        | .error error => next (some error)

def start (next : Option (Failure E) → Host C E) : Host C E := startFrom next container.startupCallbacks

def close (next : Option (Failure E) → Host C E) : Host C E :=
  releaseAll (fun errors => next (shutdownFailed errors)) (container.shutdownCallbacks.reverse.map .close) []

-- `errors.extend(error.exceptions)` for a group
def collected (errors : List (Failure E)) : Option (Failure E) → List (Failure E)
  | none => errors
  | some (.group _ failures) => errors ++ failures
  | some error => errors ++ [error]

def aclose (next : Option (Failure E) → Host C E) : Host C E :=
  releaseAll (fun errors => container.close fun closed => next (shutdownFailed (collected errors closed)))
    (container.asyncShutdownCallbacks.reverse.map .shutdown) []

end ApplicationContainer

-- The runtime by the container that it holds.
namespace ApplicationRuntime

def aclose (next : Option (ApplicationContainer C) → Option (Failure E) → Host C E) :
    Option (ApplicationContainer C) → Host C E
  | none => next none none
  | some container => container.aclose (next none)

-- `started` is what is raised when there is a container already.
def start (started : E)
    (next : Option (ApplicationContainer C) → Except (Failure E) (ApplicationContainer C) → Host C E) :
    Option (ApplicationContainer C) → Host C E
  | some container => next (some container) (.error (.error started))
  | none =>
      .await .build fun answer =>
        match answer with
        | .error error => next none (.error error)
        | .ok container =>
            container.start fun failed =>
              match failed with
              | none => next (some container) (.ok container)
              | some startupError =>
                  aclose (fun held closed =>
                    match closed with
                    | none => next held (.error startupError)
                    | some cleanupError =>
                        next held (.error (.group "Application startup and cleanup failed"
                          [startupError, cleanupError]))) (some container)

end ApplicationRuntime

def errorOf {A : Type} : Except (Failure E) A → Option (Failure E)
  | .ok _ => none
  | .error error => some error

def logIf (condition : Bool) (record : HostRecord E) (next : Host C E) : Host C E :=
  if condition then .log record next else next

variable (started : E)

-- The end of the lifespan, with what is raised in it.
def stopLifespan (held : Option (ApplicationContainer C)) (exposed : Bool) (raised : Option (Failure E)) :
    Host C E :=
  .log .stopping (ApplicationRuntime.aclose (fun _ closed =>
    match closed with
    | none => logIf exposed .hidden (.log .stopped (.ending raised))
    | some error => .log (.stopFailed error) (logIf exposed .hidden (.raise error))) held)

-- `create_lifespan`; the web server serves requests at the `yield`.
def lifespan : Host C E :=
  .log .starting (ApplicationRuntime.start started (fun held result =>
    match result with
    | .error error => .log (.startFailed error) (stopLifespan held false (some error))
    | .ok _ =>
        .log .exposed (.log .started
          (.await (.work .serve) fun answer => stopLifespan held true (errorOf answer)))) none)

-- `installed` unless a stop event is given.
def stopWorker (installed : Bool) (held : Option (ApplicationContainer C)) (raised : Option (Failure E)) :
    Host C E :=
  .log .stopping (ApplicationRuntime.aclose (fun _ closed =>
    match closed with
    | none => .log .stopped (logIf installed .handlersRemoved (.ending raised))
    | some error => .log (.stopFailed error) (logIf installed .handlersRemoved (.raise error))) held)

def WorkerHost.serve (installed : Bool) : Host C E :=
  logIf installed .handlersAdded (.log .starting (ApplicationRuntime.start started (fun held result =>
    match result with
    | .error error => .log (.startFailed error) (stopWorker installed held (some error))
    | .ok _ =>
        .await (.work .resolver) fun answer =>
          match answer with
          | .error error => .log (.startFailed error) (stopWorker installed held (some error))
          | .ok _ =>
              .log .started (.await (.work .consume) fun answer => stopWorker installed held (errorOf answer)))
    none))

namespace SchedulerHost

def raiseErrors : Option (Failure E) → List (Failure E) → Host C E
  | some operationError, [] => .raise operationError
  | some operationError, closeErrors =>
      .raise (.group "Scheduler execution and shutdown failed" (operationError :: closeErrors))
  | none, [] => .done
  | none, closeErrors => .raise (.group "Scheduler shutdown failed" closeErrors)

def closeRuntime (installed : Bool) (held : Option (ApplicationContainer C)) (operationError : Option (Failure E))
    (errors : List (Failure E)) : Host C E :=
  ApplicationRuntime.aclose (fun _ closed =>
    let errors := errors ++ closed.toList
    .log (if errors.isEmpty then .stopped else .stopFailed (.group "Scheduler shutdown failed" errors))
      (logIf installed .handlersRemoved (raiseErrors operationError errors))) held

def close (installed engine : Bool) (held : Option (ApplicationContainer C)) (operationError : Option (Failure E)) :
    Host C E :=
  .log .stopping
    (if engine then
      .await (.work .engineClose) fun answer =>
        closeRuntime installed held operationError (errorOf answer).toList
    else closeRuntime installed held operationError [])

-- The steps of `_start` and `serve` that are in one `try`.
def attempt (installed : Bool) (held : Option (ApplicationContainer C)) (work : Work) (next : Host C E) : Host C E :=
  .await (.work work) fun answer =>
    match answer with
    | .error error => .log (.startFailed error) (close installed true held (some error))
    | .ok _ => next

def serve (installed : Bool) : Host C E :=
  logIf installed .handlersAdded (.log .starting (.await (.work .engine) fun answer =>
    match answer with
    | .error error => .log (.startFailed error) (close installed false none (some error))
    | .ok _ =>
        ApplicationRuntime.start started (fun held result =>
          match result with
          | .error error => .log (.startFailed error) (close installed true held (some error))
          | .ok _ =>
              attempt installed held .registry (attempt installed held .routes
                (attempt installed held .engineStart (.log .discovered (.log .started
                  (.await (.work .engineWait) fun answer => close installed true held (errorOf answer)))))))
          none))

end SchedulerHost

-- `async with runtime as container: return await operation(..)`
def ConsoleHost.run : Host C E :=
  ApplicationRuntime.start started (fun held result =>
    match result with
    | .error error => .raise error
    | .ok _ =>
        .await (.work .operation) fun answer =>
          ApplicationRuntime.aclose (fun _ closed =>
            match closed with
            | none => .ending (errorOf answer)
            | some error => .raise error) held) none

end Hosts

end Scaffold.Runtime
