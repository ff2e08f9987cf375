import Scaffold.Queue.Contracts
import Scaffold.Resources.Lazy

namespace Scaffold.Queue

open Resources

structure ConnectionConfig where
  defaultQueue : String := "default"
  deriving DecidableEq, Repr

-- The settings that `QueueManager._validate` has accepted. The connections are a dict.
structure QueueSettings where
  default : Option String
  configs : List (String × ConnectionConfig)
  distinct : (configs.map Prod.fst).Nodup

def QueueSettings.names (settings : QueueSettings) : List String :=
  settings.configs.map Prod.fst

def QueueSettings.defaultQueue (settings : QueueSettings) (name : String) : String :=
  ((settings.configs.lookup name).getD {}).defaultQueue

-- What the manager uses of the codecs and of the errors of drivers: `encodeJob` gives the
-- type, version and payload of a job, and `isQueueError` says which errors are QueueErrors.
structure Codecs (J D : Type*) where
  encodeJob : J → Option (String × Int × Bytes)
  encode : MessageEnvelope D → Option Bytes
  decode : Bytes → Option (MessageEnvelope D)
  isQueueError : Nat → Bool

inductive QueueFailure where
  | managerClosed
  | connectionMissing
  | connectionFailed (name : String)
  | consumerFailed (name : String)
  | badConsume
  | badQueueName
  | badJob
  | badMessage
  | recordMissing
  | publishUncertain
  | await (error : Failure)
  deriving DecidableEq, Repr

-- A Dispatcher; its `ensure_active` is the manager's `_ensure_open`.
structure Dispatcher (V : Type*) where
  publisher : V
  defaultQueue : String
  deriving DecidableEq, Repr

-- What a call goes on with once it has its backend.
inductive AfterGet (J D : Type*) where
  | get
  | dispatch (job : J) (queue correlationId : Option String) (newId : Uuid) (now : D)
  | replay (message : MessageEnvelope D) (queue : String)
  | consume (target : String) (concurrency : Int)

-- How the `aclose` of one lazy handle ended under the manager's `aclose`.
inductive Attempt where
  | closed
  | failed (error : Failure)
  | waitCancelled
  deriving DecidableEq, Repr

inductive CallEnd (V : Type*) where
  | dispatcher (d : Dispatcher V)
  | published
  | left
  | closed
  | closeFailed (errors : List Failure)
  | failed (error : QueueFailure)
  deriving DecidableEq, Repr

-- The await at which a call of the manager is suspended. `inBlock` is the body of a
-- `consume` block that has been entered.
inductive Call (J D V C : Type*) where
  | idle
  | getting (name : String) (after : AfterGet J D)
  | finding (newId : Uuid) (now : D)
  | publishing
  | creating (name : String)
  | rejecting (c : C)
  | inBlock (c : C)
  | exiting (c : C)
  | closingConsumers (c : C) (rest : List C) (errors : List Failure)
  | closingResources (name : String) (rest : List String) (errors : List Failure)
  | done (result : CallEnd V)

-- The fields after `lazies` record the Dispatchers given out, the `publish` calls started,
-- the consumers that backends returned and that blocks yielded, and the `aclose` calls made
-- on consumers and on backends.
structure ManagerState (V C T : Type*) where
  closed : Bool := false
  consumers : List C := []
  lazies : Handles String V T := fun _ => {}
  dispatchers : List (Dispatcher V) := []
  publishes : List (V × String × Bytes) := []
  returned : List C := []
  yielded : List C := []
  consumerCloses : List C := []
  backendCloses : List (String × V) := []

-- A call with its part in the lazy handles. The last three fields belong to its latest
-- `aclose`: the consumers it found registered, and those and the handles it has attempted.
structure CallState (J D V C : Type*) where
  call : Call J D V C := .idle
  lazy : Local String V := {}
  snapshot : List C := []
  attempted : List C := []
  attempts : List (String × Attempt) := []

inductive ManagerAct (J D F V C : Type*) where
  | get (name : Option String)
  | dispatch (job : J) (connection queue correlationId : Option String) (newId : Uuid) (now : D)
  | dispatchWith (d : Dispatcher V) (job : J) (queue correlationId : Option String) (newId : Uuid) (now : D)
  | replay (failureId newId : Uuid) (now : D)
  | findReturns (record : Option (FailedJobRecord D F))
  | findRaises (error : Failure)
  | consume (connection queue : Option String) (concurrency : Int)
  | consumerReturns (c : C)
  | consumerRaises (error : Failure)
  | exitBlock
  | consumerCloseEnds (error : Option Failure)
  | publishEnds (error : Option Failure)
  | aclose
  | lazy (act : Act String V)

section Manager

variable {J D F V C T : Type*} [DecidableEq V] [DecidableEq C]
variable (settings : QueueSettings) (codecs : Codecs J D)

def Call.free : Call J D V C → Bool
  | .idle => true
  | .done _ => true
  | _ => false

def resolveName (s : ManagerState V C T) (name : Option String) : Except QueueFailure String :=
  if s.closed then .error .managerClosed
  else
    match name.or settings.default with
    | none => .error .connectionMissing
    | some resolved => if resolved ∈ settings.names then .ok resolved else .error .connectionMissing

def raise (s : ManagerState V C T) (l : CallState J D V C) (error : QueueFailure) :
    ManagerState V C T × CallState J D V C :=
  (s, { l with call := .done (.failed error) })

-- `publish_envelope`: no await between the check of `ensure_active` and the publish call.
def publishEnvelope (s : ManagerState V C T) (l : CallState J D V C) (d : Dispatcher V)
    (message : MessageEnvelope D) (queue : Option String) :
    ManagerState V C T × CallState J D V C :=
  if s.closed then raise s l .managerClosed
  else
    match validateQueueName (queue.getD d.defaultQueue), codecs.encode message with
    | none, _ => raise s l .badQueueName
    | some _, none => raise s l .badMessage
    | some target, some payload =>
        ({ s with publishes := s.publishes ++ [(d.publisher, target, payload)] },
          { l with call := .publishing })

def dispatchJob (s : ManagerState V C T) (l : CallState J D V C) (d : Dispatcher V) (job : J)
    (queue correlationId : Option String) (newId : Uuid) (now : D) :
    ManagerState V C T × CallState J D V C :=
  match codecs.encodeJob job with
  | none => raise s l .badJob
  | some (jobType, jobVersion, payload) =>
      publishEnvelope codecs s l d
        { jobId := newId, jobType, jobVersion, payload, enqueuedAt := now, correlationId } queue

-- The rest of a call after `_get_backend` has returned a backend.
def continueGet (s : ManagerState V C T) (l : CallState J D V C) (name : String) (backend : V) :
    AfterGet J D → ManagerState V C T × CallState J D V C :=
  let d : Dispatcher V := { publisher := backend, defaultQueue := settings.defaultQueue name }
  fun
  | .get =>
      ({ s with dispatchers := s.dispatchers ++ [d] }, { l with call := .done (.dispatcher d) })
  | .dispatch job queue correlationId newId now =>
      dispatchJob codecs s l d job queue correlationId newId now
  | .replay message queue => publishEnvelope codecs s l d message (some queue)
  | .consume _ _ => (s, { l with call := .creating name })

-- The exceptions that leave `_get_backend`.
def getFailure (s : ManagerState V C T) (name : String) : Failure → QueueFailure
  | .cancelled => .await .cancelled
  | .raised code =>
      if codecs.isQueueError code then .await (.raised code)
      else if s.closed then .managerClosed
      else .connectionFailed name
  | .closed => if s.closed then .managerClosed else .connectionFailed name

-- The second loop of `aclose`.
def closeResources (s : ManagerState V C T) (l : CallState J D V C) (errors : List Failure) :
    List String → ManagerState V C T × CallState J D V C
  | name :: rest =>
      let next := startAclose s.lazies l.lazy name .direct
      ({ s with lazies := next.1 },
        { l with call := .closingResources name rest errors, lazy := next.2 })
  | [] => (s, { l with call := .done (if errors = [] then .closed else .closeFailed errors) })

-- The first loop of `aclose`, over the reversed snapshot.
def closeConsumers (s : ManagerState V C T) (l : CallState J D V C) (errors : List Failure) :
    List C → ManagerState V C T × CallState J D V C
  | c :: rest =>
      ({ s with consumerCloses := s.consumerCloses ++ [c] },
        { l with call := .closingConsumers c rest errors, attempted := l.attempted ++ [c] })
  | [] => closeResources { s with consumers := [] } l errors settings.names.reverse

-- The end of the `aclose` of one handle, whose error the loop collects.
def attempted (s : ManagerState V C T) (l : CallState J D V C) (name : String) (attempt : Attempt)
    (errors : List Failure) (rest : List String) : ManagerState V C T × CallState J D V C :=
  closeResources s { l with attempts := l.attempts ++ [(name, attempt)] } errors rest

-- What a call does when its part in the lazy handles has moved by `act`: it goes on if that
-- part has ended and stays suspended otherwise.
def resume (act : Act String V) (s : ManagerState V C T) (l : CallState J D V C) :
    ManagerState V C T × CallState J D V C :=
  match l.call, l.lazy.task with
  | .getting name after, .done (.value _ backend) => continueGet settings codecs s l name backend after
  | .getting name _, .done (.failed error) => raise s l (getFailure codecs s name error)
  | .closingResources name rest errors, .done (.closed _) => attempted s l name .closed errors rest
  | .closingResources name rest errors, .done (.failed error) =>
      if act = .cancelWait then attempted s l name .waitCancelled (errors ++ [error]) rest
      else attempted s l name (.failed error) (errors ++ [error]) rest
  | .closingResources _ _ _, .closer name backend _ =>
      ({ s with backendCloses := s.backendCloses ++ [(name, backend)] }, l)
  | _, _ => (s, l)

-- A move of the lazy part of a call.
def lazyMove (t : T) (s : ManagerState V C T) (l : CallState J D V C) (act : Act String V) :
    Option (ManagerState V C T × CallState J D V C) :=
  (taskStep t s.lazies l.lazy act).map fun next =>
    resume settings codecs act { s with lazies := next.1 } { l with lazy := next.2 }

def startGet (t : T) (s : ManagerState V C T) (l : CallState J D V C) (name : String)
    (after : AfterGet J D) : Option (ManagerState V C T × CallState J D V C) :=
  lazyMove settings codecs t s { l with call := .getting name after } (.get name)

-- The moves of a suspended lazy call, as opposed to the calls that begin one.
def isProgress : Act String V → Bool
  | .get _ => false
  | .aclose _ => false
  | .closeLazyResources _ => false
  | _ => true

def callStep (t : T) (s : ManagerState V C T) (l : CallState J D V C) :
    ManagerAct J D F V C → Option (ManagerState V C T × CallState J D V C)
  | .get name =>
      if l.call.free then
        match resolveName settings s name with
        | .error error => some (raise s l error)
        | .ok name => startGet settings codecs t s l name .get
      else none
  | .dispatch job connection queue correlationId newId now =>
      if l.call.free then
        match resolveName settings s connection with
        | .error error => some (raise s l error)
        | .ok name => startGet settings codecs t s l name (.dispatch job queue correlationId newId now)
      else none
  | .dispatchWith d job queue correlationId newId now =>
      if l.call.free ∧ d ∈ s.dispatchers then
        some (dispatchJob codecs s l d job queue correlationId newId now)
      else none
  | .replay _ newId now =>
      if l.call.free then some (s, { l with call := .finding newId now }) else none
  | .findReturns record =>
      match l.call with
      | .finding newId now =>
          match record with
          | none => some (raise s l .recordMissing)
          | some record =>
              match codecs.decode record.payload with
              | none => some (raise s l .badMessage)
              | some message =>
                  match resolveName settings s (some record.connection) with
                  | .error error => some (raise s l error)
                  | .ok name =>
                      startGet settings codecs t s l name
                        (.replay { message with
                          jobId := newId, enqueuedAt := now, replayOf :=
                            some record.failureId } record.queue)
      | _ => none
  | .findRaises error =>
      match l.call with
      | .finding _ _ => some (raise s l (.await error))
      | _ => none
  | .consume connection queue concurrency =>
      if l.call.free then
        match resolveName settings s connection with
        | .error error => some (raise s l error)
        | .ok name =>
            match validateQueueName (queue.getD (settings.defaultQueue name)),
                validateWorkerConcurrency concurrency with
            | some target, some concurrency =>
                startGet settings codecs t s l name (.consume target concurrency)
            | _, _ => some (raise s l .badConsume)
      else none
  | .consumerReturns c =>
      match l.call with
      | .creating _ =>
          if c ∈ s.returned then none
          else
            let s := { s with returned := s.returned ++ [c] }
            if s.closed then
              some ({ s with consumerCloses := s.consumerCloses ++ [c] }, { l with call := .rejecting c })
            else
              some ({ s with consumers := s.consumers ++ [c], yielded := s.yielded ++ [c] },
                { l with call := .inBlock c })
      | _ => none
  | .consumerRaises error =>
      match l.call with
      | .creating name =>
          match error with
          | .raised code =>
              if codecs.isQueueError code then some (raise s l (.await error))
              else some (raise s l (.consumerFailed name))
          | error => some (raise s l (.await error))
      | _ => none
  | .exitBlock =>
      match l.call with
      | .inBlock c =>
          some ({ s with consumerCloses := s.consumerCloses ++ [c] }, { l with call := .exiting c })
      | _ => none
  | .consumerCloseEnds error =>
      match l.call with
      | .rejecting _ =>
          match error with
          | none => some (raise s l .managerClosed)
          | some error => some (raise s l (.await error))
      | .exiting c =>
          let s := { s with consumers := s.consumers.erase c }
          match error with
          | none => some (s, { l with call := .done .left })
          | some error => some (raise s l (.await error))
      | .closingConsumers _ rest errors =>
          some (closeConsumers settings s l (errors ++ error.toList) rest)
      | _ => none
  | .publishEnds error =>
      match l.call with
      | .publishing =>
          match error with
          | none => some (s, { l with call := .done .published })
          | some .cancelled => some (raise s l (.await .cancelled))
          | some _ => some (raise s l .publishUncertain)
      | _ => none
  | .aclose =>
      if l.call.free then
        -- every handle is sealed before the first await
        some (closeConsumers settings
          { s with closed := true, lazies := settings.names.foldl beginClose s.lazies }
          { l with snapshot := s.consumers, attempted := [], attempts := [] } [] s.consumers.reverse)
      else none
  | .lazy act => if isProgress act then lazyMove settings codecs t s l act else none

abbrev ManagerPool (J D V C T : Type*) := Pool T (ManagerState V C T) (CallState J D V C)

def noEnv (_ : ManagerState V C T) (event : Empty) : Option (ManagerState V C T) := nomatch event

abbrev managerStep [DecidableEq T] :
    ManagerPool J D V C T → (T × ManagerAct J D F V C) ⊕ Empty → Option (ManagerPool J D V C T) :=
  Pool.step (callStep settings codecs) noEnv

def ManagerPool.init (J D V C T : Type*) : ManagerPool J D V C T where
  shared := {}
  loc _ := {}

end Manager

end Scaffold.Queue
