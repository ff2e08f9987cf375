import Scaffold.Http.Middleware
import Scaffold.Http.Response.Theorems
import Scaffold.Program.Similar

namespace Scaffold.Http

open Program (Event Outcome ends exchanges records requests watched)
open Python
open RateLimit (RateLimitDecision)

section Protocol

def Message.isStart : Message → Bool
  | .responseStart .. => true
  | _ => false

def Message.status : Message → Option Nat
  | .responseStart statusCode _ => some statusCode
  | _ => none

-- How far a response has been sent.
inductive Stage where
  | idle
  | started
  | complete
  deriving DecidableEq

-- A response is started once, and its body ends once; other messages belong to extensions.
def Stage.next : Stage → Message → Option Stage
  | .idle, .responseStart .. => some .started
  | .started, .responseBody _ moreBody => some (if moreBody then .started else .complete)
  | stage, .other _ => some stage
  | _, _ => none

def stageFrom (stage : Stage) (messages : List Message) : Option Stage :=
  messages.foldlM Stage.next stage

variable {A : Type} {RA : A → Type} {L : Type}

def Await.message : Await A → Option Message
  | .send message => some message
  | _ => none

-- The messages that the server has been given.
def messages (events : List (Event (Await A) (Reply RA) (Record L) Thrown))
    (outcome : Outcome (Await A) Thrown) : List Message :=
  (requests events outcome).filterMap Await.message

-- The response protocol: the messages of every run follow it, and who returns has completed the response.
structure Responds (app : App A RA L) : Prop where
  conforms : ∀ events outcome, app.Runs events outcome → ∃ stage, stageFrom .idle (messages events outcome) = some stage
  completes : ∀ events, app.Runs events .returned → stageFrom .idle (messages events .returned) = some .complete

theorem stageFrom_append (stage : Stage) (before after : List Message) :
    stageFrom stage (before ++ after) = (stageFrom stage before).bind fun stage => stageFrom stage after :=
  List.foldlM_append ..

theorem stageFrom_cons (stage : Stage) (message : Message) (rest : List Message) :
    stageFrom stage (message :: rest) = (stage.next message).bind fun stage => stageFrom stage rest :=
  List.foldlM_cons ..

-- Without its start no response is under way.
theorem stage_of_not_started {sent : List Message} {stage : Stage} (h : stageFrom .idle sent = some stage)
    (hstart : sent.any Message.isStart = false) : stage = .idle := by
  induction sent with
  | nil => exact (Option.some.inj h).symm
  | cons message rest ih =>
      rw [List.any_cons, Bool.or_eq_false_iff] at hstart
      rw [stageFrom_cons] at h
      cases message with
      | responseStart statusCode headers => cases hstart.1
      | responseBody body moreBody => cases h
      | other type => exact ih h hstart.2

end Protocol

section Parts

variable {A : Type} {RA : A → Type} {L : Type}
  {events before after : List (Event (Await A) (Reply RA) (Record L) Thrown)}
  {outcome : Outcome (Await A) Thrown}

theorem messages_append : messages (before ++ after) outcome =
    messages before (.returned : Outcome (Await A) Thrown) ++ messages after outcome := by
  simp [messages, requests, Outcome.request]

theorem messages_ends (result : Option Thrown) :
    messages events (ends result) = messages events (.returned : Outcome (Await A) Thrown) := by
  cases result <;> rfl

theorem responseStarted_eq (started : Bool) (request : Await A) :
    responseStarted started request = (started || request.message.any Message.isStart) := by
  cases request with
  | send message => cases message <;> simp [responseStarted, Await.message, Message.isStart]
  | acquire identity => simp [responseStarted, Await.message]
  | other request => simp [responseStarted, Await.message]

theorem watched_responseStarted : watched responseStarted false events =
    (messages events (.returned : Outcome (Await A) Thrown)).any Message.isStart := by
  have key : ∀ (reqs : List (Await A)) started, reqs.foldl responseStarted started =
      (started || (reqs.filterMap Await.message).any Message.isStart) := by
    intro reqs
    induction reqs with
    | nil => simp
    | cons request rest ih =>
        intro started
        rw [List.foldl_cons, ih, responseStarted_eq, List.filterMap_cons]
        cases request.message with
        | none => simp
        | some message => simp [Bool.or_assoc]
  simpa [watched, messages, requests, Outcome.request] using key (events.filterMap Event.request) false

-- The status of the last response that was started.
def lastStatus (sent : List Message) : Option Nat := (sent.filterMap Message.status).getLast?

theorem sentStatus_eq (status : Option Nat) (request : Await A) :
    sentStatus status request = (request.message.bind Message.status).or status := by
  cases request with
  | send message => cases message <;> rfl
  | acquire identity => rfl
  | other request => rfl

theorem watched_sentStatus : watched sentStatus none events =
    lastStatus (messages events (.returned : Outcome (Await A) Thrown)) := by
  have key : ∀ (reqs : List (Await A)) status, reqs.foldl sentStatus status =
      (lastStatus (reqs.filterMap Await.message)).or status := by
    intro reqs
    induction reqs with
    | nil => exact fun _ => rfl
    | cons request rest ih =>
        intro status
        rw [List.foldl_cons, ih, sentStatus_eq, List.filterMap_cons]
        cases request.message with
        | none => rfl
        | some message =>
            dsimp only [lastStatus, Option.bind_some]
            rw [List.filterMap_cons]
            cases message.status with
            | none => rfl
            | some statusCode =>
                dsimp only
                rw [List.getLast?_cons]
                cases ((rest.filterMap Await.message).filterMap Message.status).getLast? <;> rfl
  have hkey := key (events.filterMap Event.request) none
  rw [Option.or_none] at hkey
  simpa [watched, messages, requests, Outcome.request] using hkey

def Response.messages (response : Response) : List Message :=
  [.responseStart response.statusCode response.headers, .responseBody response.body false]

-- A response is sent by its two messages, unless the server raises at the first one.
theorem runs_sendResponse {response : Response} (h : (sendResponse response : App A RA L).Runs events outcome) :
    records events = [] ∧ (messages events outcome = response.messages ∨
      messages events outcome = response.messages.take 1 ∧ outcome ≠ .returned) := by
  obtain ⟨rfl, rfl⟩ | ⟨error, rfl, rfl⟩ | ⟨answer, rest, rfl, hbody⟩ := Program.runs_perform.mp h
  · exact ⟨rfl, .inr ⟨rfl, nofun⟩⟩
  · exact ⟨rfl, .inr ⟨rfl, nofun⟩⟩
  · obtain ⟨rfl, rfl⟩ | ⟨error, rfl, rfl⟩ | ⟨answer, rest, rfl, hdone⟩ := Program.runs_perform.mp hbody
    · exact ⟨rfl, .inl rfl⟩
    · exact ⟨rfl, .inl rfl⟩
    · obtain ⟨rfl, rfl⟩ := Program.runs_done.mp hdone
      exact ⟨rfl, .inl rfl⟩

theorem runs_sendBuilt {result : Except TypeName Response}
    (h : (sendBuilt result : App A RA L).Runs events outcome) :
    (∃ type, result = .error type ∧ events = [] ∧ outcome = .raised (.ofType type)) ∨
      ∃ response, result = .ok response ∧ (sendResponse response : App A RA L).Runs events outcome := by
  cases result with
  | error type =>
      obtain ⟨rfl, rfl⟩ := Program.runs_raise.mp h
      exact .inl ⟨type, rfl, rfl, rfl⟩
  | ok response => exact .inr ⟨response, rfl, h⟩

theorem stageFrom_response (response : Response) :
    stageFrom .idle response.messages = some .complete ∧
      stageFrom .idle (response.messages.take 1) = some .started :=
  ⟨rfl, rfl⟩

theorem responds_sendBuilt (result : Except TypeName Response) :
    Responds (sendBuilt result : App A RA L) := by
  constructor
  · intro events outcome h
    obtain ⟨type, rfl, rfl, rfl⟩ | ⟨response, rfl, hresponse⟩ := runs_sendBuilt h
    · exact ⟨.idle, rfl⟩
    · obtain ⟨-, hsent | ⟨hsent, -⟩⟩ := runs_sendResponse hresponse
      · exact ⟨.complete, hsent ▸ (stageFrom_response response).1⟩
      · exact ⟨.started, hsent ▸ (stageFrom_response response).2⟩
  · intro events h
    obtain ⟨type, rfl, rfl, hreturned⟩ | ⟨response, rfl, hresponse⟩ := runs_sendBuilt h
    · cases hreturned
    · obtain ⟨-, hsent | ⟨-, hreturned⟩⟩ := runs_sendResponse hresponse
      · exact hsent ▸ (stageFrom_response response).1
      · exact absurd rfl hreturned

end Parts

section Capture

variable {A : Type} {RA : A → Type} {L : Type} {framework : Framework} {builder : ResponseCodeBuilder}
  {requestId : Option Text} {debug : Bool} {scope : RequestScope} {app : App A RA L}

-- A run through the capture of exceptions: the application's own, which may raise, or one that goes on
-- with a record and with the rendered exception where no response has been started.
inductive CaptureRun (framework : Framework) (builder : ResponseCodeBuilder) (requestId : Option Text)
    (debug : Bool) (scope : RequestScope) (app : App A RA L) :
    List (Event (Await A) (Reply RA) (Record L) Thrown) → Outcome (Await A) Thrown → Prop
  | passed {events : List (Event (Await A) (Reply RA) (Record L) Thrown)} {outcome : Outcome (Await A) Thrown}
      (h : app.Runs events outcome)
      (hraised : ∀ error, outcome = .raised error → error.isException = false ∨ debug = true) :
      CaptureRun framework builder requestId debug scope app events outcome
  | failed {before : List (Event (Await A) (Reply RA) (Record L) Thrown)} {error : Thrown}
      (h : app.Runs before (.raised error))
      (hstarted : (messages before (.returned : Outcome (Await A) Thrown)).any Message.isStart = true) :
      CaptureRun framework builder requestId debug scope app
        (before ++ [.logged (.unhandledException scope.method true error.type)]) (.raised error)
  | answered {before after : List (Event (Await A) (Reply RA) (Record L) Thrown)} {error : Thrown}
      {outcome : Outcome (Await A) Thrown} (h : app.Runs before (.raised error))
      (hidle : (messages before (.returned : Outcome (Await A) Thrown)).any Message.isStart = false)
      (hafter : (sendBuilt (renderException framework builder requestId error)).Runs after outcome) :
      CaptureRun framework builder requestId debug scope app
        (before ++ .logged (.unhandledException scope.method false error.type) :: after) outcome

theorem runs_captureExceptions {events : List (Event (Await A) (Reply RA) (Record L) Thrown)}
    {outcome : Outcome (Await A) Thrown} (hscope : scope.type = "http")
    (h : (captureExceptions framework builder requestId debug scope app).Runs events outcome) :
    CaptureRun framework builder requestId debug scope app events outcome := by
  unfold captureExceptions at h
  rw [if_neg (not_not.mpr hscope)] at h
  obtain ⟨request, rfl, hrun⟩ | ⟨before, after, result, rfl, hrun, hafter⟩ := Program.runs_guard.mp h
  · exact .passed hrun nofun
  · rw [watched_responseStarted] at hafter
    cases result with
    | none =>
        obtain ⟨rfl, rfl⟩ := Program.runs_done.mp hafter
        rw [List.append_nil]
        exact .passed hrun nofun
    | some error =>
        unfold handleFailure at hafter
        dsimp only at hafter
        split_ifs at hafter with hraise hstarted
        · obtain ⟨rfl, rfl⟩ := Program.runs_raise.mp hafter
          rw [List.append_nil]
          refine .passed hrun fun other hother => ?_
          obtain rfl := Outcome.raised.inj hother
          simpa using hraise
        · obtain ⟨rest, rfl, hrest⟩ := Program.runs_log.mp hafter
          obtain ⟨rfl, rfl⟩ := Program.runs_raise.mp hrest
          rw [hstarted]
          exact .failed hrun hstarted
        · obtain ⟨rest, rfl, hrest⟩ := Program.runs_log.mp hafter
          rw [Bool.eq_false_iff.mpr hstarted]
          exact .answered hrun (Bool.eq_false_iff.mpr hstarted) hrest

theorem messages_logged {events : List (Event (Await A) (Reply RA) (Record L) Thrown)}
    {outcome : Outcome (Await A) Thrown} {record : Record L} :
    messages (.logged record :: events) outcome = messages events outcome := rfl

-- An answer to an exception begins where the application has left the response.
theorem CaptureRun.stage {before after : List (Event (Await A) (Reply RA) (Record L) Thrown)}
    {outcome : Outcome (Await A) Thrown} {record : Record L} {error : Thrown} (happ : Responds app)
    (h : app.Runs before (.raised error))
    (hidle : (messages before (.returned : Outcome (Await A) Thrown)).any Message.isStart = false) :
    stageFrom .idle (messages (before ++ .logged record :: after) outcome) =
      stageFrom .idle (messages after outcome) := by
  obtain ⟨stage, hstage⟩ := happ.conforms before _ h
  have hends : messages before (.raised error) = messages before (.returned : Outcome (Await A) Thrown) :=
    messages_ends (some error)
  rw [hends] at hstage
  obtain rfl := stage_of_not_started hstage hidle
  rw [messages_append, messages_logged, stageFrom_append, hstage, Option.bind_some]

theorem responds_captureExceptions (happ : Responds app) :
    Responds (captureExceptions framework builder requestId debug scope app) := by
  by_cases hscope : scope.type = "http"
  · constructor
    · intro events outcome h
      cases runs_captureExceptions hscope h with
      | passed hrun _ => exact happ.conforms _ _ hrun
      | failed hrun hstarted =>
          obtain ⟨stage, hstage⟩ := happ.conforms _ _ hrun
          refine ⟨stage, ?_⟩
          rw [messages_append]
          exact (congrArg (stageFrom .idle) (List.append_nil _)).trans hstage
      | answered hrun hidle hafter =>
          rw [CaptureRun.stage happ hrun hidle]
          exact (responds_sendBuilt _).conforms _ _ hafter
    · intro events h
      cases runs_captureExceptions hscope h with
      | passed hrun _ => exact happ.completes _ hrun
      | answered hrun hidle hafter =>
          rw [CaptureRun.stage happ hrun hidle]
          exact (responds_sendBuilt _).completes _ hafter
  · unfold captureExceptions
    rw [if_pos hscope]
    exact happ

end Capture

section Limit

variable {A : Type} {RA : A → Type} {L : Type} {framework : Framework} {builder : ResponseCodeBuilder}
  {requestId : Option Text} {middleware : RateLimitMiddleware} {scope : RequestScope} {app : App A RA L}

-- A run through the rate limit, by the answer of the limiter.
inductive LimitRun (framework : Framework) (builder : ResponseCodeBuilder) (requestId : Option Text)
    (middleware : RateLimitMiddleware) (scope : RequestScope) (app : App A RA L) :
    List (Event (Await A) (Reply RA) (Record L) Thrown) → Outcome (Await A) Thrown → Prop
  | free {events : List (Event (Await A) (Reply RA) (Record L) Thrown)} {outcome : Outcome (Await A) Thrown}
      (hfree : shouldLimit scope = false) (h : app.Runs events outcome) :
      LimitRun framework builder requestId middleware scope app events outcome
  | unwired : LimitRun framework builder requestId middleware scope app [] (.raised (.ofType runtimeError))
  | waiting : LimitRun framework builder requestId middleware scope app []
      (.waiting (.acquire (clientIdentity scope)))
  | admitted {events : List (Event (Await A) (Reply RA) (Record L) Thrown)}
      {outcome : Outcome (Await A) Thrown} {decision : RateLimitDecision} (hallowed : decision.allowed = true)
      (h : app.Runs events outcome) :
      LimitRun framework builder requestId middleware scope app
        (.asked (.acquire (clientIdentity scope)) (.ok decision) :: events) outcome
  | rejected {events : List (Event (Await A) (Reply RA) (Record L) Thrown)}
      {outcome : Outcome (Await A) Thrown} {decision : RateLimitDecision} (hdenied : decision.allowed = false)
      (h : (rejectRequest framework builder requestId .tooManyRequests [noStore, retryAfter decision]).Runs
        events outcome) :
      LimitRun framework builder requestId middleware scope app
        (.asked (.acquire (clientIdentity scope)) (.ok decision) :: events) outcome
  | unlimited {events : List (Event (Await A) (Reply RA) (Record L) Thrown)} {outcome : Outcome (Await A) Thrown}
      {error : Thrown} (hkind : error.kind = .rateLimitUnavailable) (hopen : middleware.failOpen = true)
      (h : app.Runs events outcome) :
      LimitRun framework builder requestId middleware scope app
        (.asked (.acquire (clientIdentity scope)) (.error error) ::
          .logged (.rateLimitUnavailable middleware.failOpen error.type) :: events) outcome
  | unavailable {events : List (Event (Await A) (Reply RA) (Record L) Thrown)}
      {outcome : Outcome (Await A) Thrown} {error : Thrown} (hkind : error.kind = .rateLimitUnavailable)
      (h : (rejectRequest framework builder requestId .serviceUnavailable [noStore]).Runs events outcome) :
      LimitRun framework builder requestId middleware scope app
        (.asked (.acquire (clientIdentity scope)) (.error error) ::
          .logged (.rateLimitUnavailable middleware.failOpen error.type) :: events) outcome
  | raised {error : Thrown} : LimitRun framework builder requestId middleware scope app
      [.asked (.acquire (clientIdentity scope)) (.error error)] (.raised error)

variable {events : List (Event (Await A) (Reply RA) (Record L) Thrown)} {outcome : Outcome (Await A) Thrown}

theorem runs_rateLimit (h : (rateLimit framework builder requestId middleware scope app).Runs events outcome) :
    LimitRun framework builder requestId middleware scope app events outcome := by
  unfold rateLimit at h
  split_ifs at h with hlimit hwired
  · obtain ⟨rfl, rfl⟩ | ⟨answer, rest, rfl, hrest⟩ := Program.runs_await.mp h
    · exact .waiting
    · unfold limitAnswered at hrest
      cases answer with
      | ok decision =>
          dsimp only at hrest
          split_ifs at hrest with hallowed
          · exact .admitted hallowed hrest
          · exact .rejected (Bool.eq_false_iff.mpr hallowed) hrest
      | error error =>
          dsimp only at hrest
          split at hrest
          · rename_i hkind
            obtain ⟨rest, rfl, hafter⟩ := Program.runs_log.mp hrest
            split_ifs at hafter with hopen
            · exact .unlimited hkind hopen hafter
            · exact .unavailable hkind hafter
          · obtain ⟨rfl, rfl⟩ := Program.runs_raise.mp hrest
            exact .raised
  · obtain ⟨rfl, rfl⟩ := Program.runs_raise.mp h
    exact .unwired
  · exact .free (Bool.eq_false_iff.mpr hlimit) h

-- Behind the limit the messages are those of the application, those of a built response, or none.
theorem LimitRun.sent (h : LimitRun framework builder requestId middleware scope app events outcome) :
    (∃ rest, messages events outcome = messages rest outcome ∧ app.Runs rest outcome) ∨
      (∃ rest result, messages events outcome = messages rest outcome ∧
        (sendBuilt result : App A RA L).Runs rest outcome) ∨
      messages events outcome = [] ∧ outcome ≠ .returned := by
  cases h with
  | free _ hrun => exact .inl ⟨_, rfl, hrun⟩
  | unwired => exact .inr (.inr ⟨rfl, nofun⟩)
  | waiting => exact .inr (.inr ⟨rfl, nofun⟩)
  | admitted _ hrun => exact .inl ⟨_, by rfl, hrun⟩
  | rejected _ hrun => exact .inr (.inl ⟨_, _, by rfl, hrun⟩)
  | unlimited _ _ hrun => exact .inl ⟨_, by rfl, hrun⟩
  | unavailable _ hrun => exact .inr (.inl ⟨_, _, by rfl, hrun⟩)
  | raised => exact .inr (.inr ⟨rfl, nofun⟩)

theorem responds_rateLimit (happ : Responds app) :
    Responds (rateLimit framework builder requestId middleware scope app) := by
  constructor
  · intro events outcome h
    obtain ⟨rest, hsent, hrun⟩ | ⟨rest, result, hsent, hrun⟩ | ⟨hsent, -⟩ := (runs_rateLimit h).sent
    · exact hsent ▸ happ.conforms rest outcome hrun
    · exact hsent ▸ (responds_sendBuilt result).conforms rest outcome hrun
    · exact ⟨.idle, hsent ▸ rfl⟩
  · intro events h
    obtain ⟨rest, hsent, hrun⟩ | ⟨rest, result, hsent, hrun⟩ | ⟨-, hreturned⟩ := (runs_rateLimit h).sent
    · exact hsent ▸ happ.completes rest hrun
    · exact hsent ▸ (responds_sendBuilt result).completes rest hrun
    · exact absurd rfl hreturned

end Limit

section Access

variable {A : Type} {RA : A → Type} {L : Type} {scope : RequestScope} {excludeRoutes : List Text}
  {app : App A RA L} {events : List (Event (Await A) (Reply RA) (Record L) Thrown)}
  {outcome : Outcome (Await A) Thrown}

-- A run through the access log writes its record when it ends.
theorem runs_accessLog (hscope : scope.type = "http")
    (h : (accessLog excludeRoutes scope app).Runs events outcome) :
    (∃ request, outcome = .waiting request ∧ app.Runs events outcome) ∨
      ∃ before result, outcome = ends result ∧ app.Runs before (ends result) ∧
        events = before ++ (writeLog scope excludeRoutes
          (lastStatus (messages before (.returned : Outcome (Await A) Thrown))) result).toList.map .logged := by
  unfold accessLog at h
  rw [if_neg (not_not.mpr hscope)] at h
  obtain hwaiting | ⟨before, after, result, rfl, hrun, hafter⟩ := Program.runs_guard.mp h
  · exact .inl hwaiting
  · rw [watched_sentStatus] at hafter
    unfold logAccess at hafter
    cases hwrite : writeLog (L := L) scope excludeRoutes
        (lastStatus (messages before (.returned : Outcome (Await A) Thrown))) result with
    | none =>
        rw [hwrite] at hafter
        obtain ⟨rfl, rfl⟩ := Program.runs_ending.mp hafter
        exact .inr ⟨before, result, rfl, hrun, by rw [hwrite]; rfl⟩
    | some record =>
        rw [hwrite] at hafter
        obtain ⟨rest, rfl, hrest⟩ := Program.runs_log.mp hafter
        obtain ⟨rfl, rfl⟩ := Program.runs_ending.mp hrest
        exact .inr ⟨before, result, rfl, hrun, by rw [hwrite]; rfl⟩

theorem messages_map_logged (records : List (Record L)) :
    messages (events ++ records.map .logged) outcome = messages events outcome := by
  have hnone : (records.map (Event.logged : Record L → Event (Await A) (Reply RA) (Record L) Thrown)).filterMap
      Event.request = [] := by
    induction records with
    | nil => rfl
    | cons record records ih => exact ih
  have hrequests : (events ++ records.map Event.logged).filterMap Event.request =
      events.filterMap Event.request := by
    rw [List.filterMap_append, hnone, List.append_nil]
  unfold messages requests
  rw [hrequests]

theorem responds_accessLog (happ : Responds app) : Responds (accessLog excludeRoutes scope app) := by
  by_cases hscope : scope.type = "http"
  · constructor
    · intro events outcome h
      obtain ⟨request, rfl, hrun⟩ | ⟨before, result, rfl, hrun, rfl⟩ := runs_accessLog hscope h
      · exact happ.conforms _ _ hrun
      · rw [messages_map_logged]
        exact happ.conforms _ _ hrun
    · intro events h
      obtain ⟨request, hwaiting, -⟩ | ⟨before, result, hends, hrun, rfl⟩ := runs_accessLog hscope h
      · cases hwaiting
      · rw [messages_map_logged]
        cases result with
        | none => exact happ.completes _ hrun
        | some error => cases hends
  · unfold accessLog
    rw [if_pos hscope]
    exact happ

end Access

section Stack

variable {A : Type} {RA : A → Type} {L : Type} {framework : Framework} {builder : ResponseCodeBuilder}
  {requestId : Option Text} {settings : StackSettings} {scope : RequestScope} {app : App A RA L}
  {events : List (Event (Await A) (Reply RA) (Record L) Thrown)} {outcome : Outcome (Await A) Thrown}

-- The part of the stack that the access log is around.
def capturedPart (framework : Framework) (builder : ResponseCodeBuilder) (requestId : Option Text)
    (settings : StackSettings) (scope : RequestScope) (app : App A RA L) : App A RA L :=
  captureExceptions framework builder requestId settings.debug scope
    (if settings.rateLimitEnabled then rateLimit framework builder requestId settings.rateLimit scope app
    else app)

theorem middlewares_eq : middlewares framework builder requestId settings scope app =
    if settings.accessEnabled then
      accessLog settings.accessExcludeRoutes scope (capturedPart framework builder requestId settings scope app)
    else capturedPart framework builder requestId settings scope app := rfl

theorem responds_capturedPart (happ : Responds app) :
    Responds (capturedPart framework builder requestId settings scope app) := by
  refine responds_captureExceptions ?_
  split_ifs
  · exact responds_rateLimit happ
  · exact happ

-- An exception that is raised through the capture: no ordinary one, one after the start of the
-- response, or one that the rendering itself has raised.
theorem raised_captureExceptions {debug : Bool} {error : Thrown} (hscope : scope.type = "http")
    (hdebug : debug = false)
    (h : (captureExceptions framework builder requestId debug scope app).Runs events (.raised error)) :
    error.isException = false ∨
      (messages events (.raised error : Outcome (Await A) Thrown)).any Message.isStart = true ∨
      ∃ cause type, renderException framework builder requestId cause = .error type ∧ error = .ofType type := by
  cases runs_captureExceptions hscope h with
  | passed hrun hraised =>
      obtain hbase | hon := hraised error rfl
      · exact .inl hbase
      · rw [hdebug] at hon
        cases hon
  | failed hrun hstarted =>
      refine .inr (.inl ?_)
      rw [messages_append, List.any_append, hstarted, Bool.true_or]
  | answered hrun hidle hafter =>
      obtain ⟨type, hrender, rfl, hraised⟩ | ⟨response, -, hresponse⟩ := runs_sendBuilt hafter
      · obtain rfl := Outcome.raised.inj hraised
        exact .inr (.inr ⟨_, type, hrender, rfl⟩)
      · refine .inr (.inl ?_)
        rw [messages_append, messages_logged, List.any_append, Bool.or_eq_true]
        obtain ⟨-, hsent | ⟨hsent, -⟩⟩ := runs_sendResponse hresponse
        · exact .inr (hsent ▸ rfl)
        · exact .inr (hsent ▸ rfl)

-- Around an application that keeps the response protocol the middlewares keep it, whatever the limiter
-- and the server answer. Without debugging an ordinary exception leaves them only when the response has
-- been started or when its rendering raises.
theorem middlewares_respond (happ : Responds app) :
    Responds (middlewares framework builder requestId settings scope app) ∧
      ∀ events error, (middlewares framework builder requestId settings scope app).Runs events (.raised error) →
        scope.type = "http" → settings.debug = false → error.isException = true →
        (messages events (.raised error : Outcome (Await A) Thrown)).any Message.isStart = true ∨
          ∃ cause type, renderException framework builder requestId cause = .error type ∧
            error = .ofType type := by
  rw [middlewares_eq]
  refine ⟨?_, fun events error h hscope hdebug hexception => ?_⟩
  · split_ifs
    · exact responds_accessLog (responds_capturedPart happ)
    · exact responds_capturedPart happ
  · have hinner : ∀ events, (capturedPart framework builder requestId settings scope app).Runs events
        (.raised error) → (messages events (.raised error : Outcome (Await A) Thrown)).any Message.isStart = true ∨
          ∃ cause type, renderException framework builder requestId cause = .error type ∧
            error = .ofType type := by
      intro events h
      obtain hbase | h := raised_captureExceptions hscope hdebug h
      · rw [hexception] at hbase
        cases hbase
      · exact h
    split_ifs at h
    · obtain ⟨request, hwaiting, -⟩ | ⟨before, result, hends, hrun, rfl⟩ := runs_accessLog hscope h
      · cases hwaiting
      · rw [messages_map_logged]
        exact hinner before (hends ▸ hrun)
    · exact hinner events h

end Stack

section Broken

def accessOnly : StackSettings where
  debug := false
  accessEnabled := true
  accessExcludeRoutes := []
  rateLimitEnabled := false
  rateLimit := { failOpen := false, limiter := true }

def getUsers : RequestScope where
  type := "http"
  method := "GET"
  path := textOf "/users"
  rootPath := []
  headers := []
  client := none

abbrev PlainApp : Type 1 := App Empty (fun _ => Empty) Unit

-- An application that raises after the start of its response.
def brokenApp : PlainApp :=
  sendMessage (.responseStart 200 []) (.raise (.ofType valueError))

def brokenEvents : List (Event (Await Empty) (Reply fun _ => Empty) (Record Unit) Thrown) :=
  [.asked (.send (.responseStart 200 [])) (.ok ())]

theorem runs_brokenApp : brokenApp.Runs brokenEvents (.raised (.ofType valueError)) :=
  Program.runs_perform.mpr (.inr (.inr ⟨(), [], rfl, Program.runs_raise.mpr ⟨rfl, rfl⟩⟩))

theorem brokenApp_cases {events : List (Event (Await Empty) (Reply fun _ => Empty) (Record Unit) Thrown)}
    {outcome : Outcome (Await Empty) Thrown} (h : brokenApp.Runs events outcome) :
    records events = [] ∧ messages events outcome = [.responseStart 200 []] ∧ outcome ≠ .returned := by
  obtain ⟨rfl, rfl⟩ | ⟨error, rfl, rfl⟩ | ⟨answer, rest, rfl, hrest⟩ := Program.runs_perform.mp h
  · exact ⟨rfl, rfl, nofun⟩
  · exact ⟨rfl, rfl, nofun⟩
  · obtain ⟨rfl, rfl⟩ := Program.runs_raise.mp hrest
    exact ⟨rfl, rfl, nofun⟩

theorem responds_brokenApp : Responds brokenApp where
  conforms events outcome h := by
    rw [(brokenApp_cases h).2.1]
    exact ⟨.started, rfl⟩
  completes events h := absurd rfl (brokenApp_cases h).2.2

-- The records of the middlewares for it.
def brokenRecords : List (Record Unit) :=
  [.unhandledException "GET" true valueError, .requestCompleted .error {
    method := "GET"
    route := textOf "/users"
    statusCode := 200
    clientIp := none
    failed := true
    failureType := some "ValueError" }]

theorem runs_broken : (middlewares plainFramework service none accessOnly getUsers brokenApp).Runs
    (brokenEvents ++ brokenRecords.map .logged) (.raised (.ofType valueError)) := by
  have hcaptured : (captureExceptions plainFramework service none false getUsers brokenApp).Runs
      (brokenEvents ++ [.logged (.unhandledException "GET" true valueError)]) (.raised (.ofType valueError)) := by
    refine Program.runs_guard.mpr (.inr ⟨brokenEvents, _, some (.ofType valueError), rfl, runs_brokenApp, ?_⟩)
    exact Program.runs_log.mpr ⟨[], rfl, Program.runs_raise.mpr ⟨rfl, rfl⟩⟩
  refine Program.runs_guard.mpr
    (.inr ⟨_, brokenRecords.tail.map .logged, some (.ofType valueError), rfl, hcaptured, ?_⟩)
  exact Program.runs_log.mpr ⟨[], rfl, Program.runs_raise.mpr ⟨rfl, rfl⟩⟩

theorem middlewares_respond_broken :
    Responds (middlewares plainFramework service none accessOnly getUsers brokenApp) ∧
      ((messages (brokenEvents ++ brokenRecords.map .logged)
        (.raised (.ofType valueError) : Outcome (Await Empty) Thrown)).any Message.isStart = true ∨
        ∃ cause type, renderException plainFramework service none cause = .error type ∧
          Thrown.ofType valueError = .ofType type) := by
  obtain ⟨hresponds, hraised⟩ :=
    @middlewares_respond _ _ _ plainFramework service none accessOnly getUsers brokenApp responds_brokenApp
  exact ⟨hresponds, hraised _ _ runs_broken rfl rfl rfl⟩

end Broken

section Hidden

variable {A : Type} {RA : A → Type} {L : Type} {framework : Framework} {builder : ResponseCodeBuilder}
  {requestId : Option Text} {debug : Bool} {scope : RequestScope} {app other : App A RA L}

-- Exceptions that a client may not tell apart.
def SameFault (error error' : Thrown) : Prop :=
  error = error' ∨
    (error.isFault = true ∧ error.isException = true) ∧ error'.isFault = true ∧ error'.isException = true

theorem sameFault_refl (error : Thrown) : SameFault error error := .inl rfl

theorem similar_handleFailure {started : Bool} {result result' : Option Thrown}
    (h : Option.Rel SameFault result result') :
    Program.Similar SameFault (handleFailure framework builder requestId debug scope started result : App A RA L)
      (handleFailure framework builder requestId debug scope started result') := by
  cases h with
  | none => exact Program.similar_refl sameFault_refl _
  | some hsame =>
      obtain rfl | ⟨⟨hfault, hexception⟩, hfault', hexception'⟩ := id hsame
      · exact Program.similar_refl sameFault_refl _
      · unfold handleFailure
        dsimp only
        rw [hexception, hexception', renderException_fault hfault, renderException_fault hfault']
        split_ifs
        · exact Program.similar_raise hsame
        · exact Program.similar_log (Program.similar_raise hsame)
        · exact Program.similar_log (Program.similar_refl sameFault_refl _)

theorem similar_captureExceptions (h : Program.Similar SameFault app other) :
    Program.Similar SameFault (captureExceptions framework builder requestId debug scope app)
      (captureExceptions framework builder requestId debug scope other) := by
  unfold captureExceptions
  split_ifs
  · exact h
  · refine Program.similar_guard ?_ false h
    exact fun seen result result' hresult => similar_handleFailure hresult

theorem similar_rateLimit {middleware : RateLimitMiddleware} (h : Program.Similar SameFault app other) :
    Program.Similar SameFault (rateLimit framework builder requestId middleware scope app)
      (rateLimit framework builder requestId middleware scope other) := by
  unfold rateLimit
  split_ifs
  · refine Program.similar_await fun answer => ?_
    unfold limitAnswered
    cases answer with
    | ok decision =>
        dsimp only
        split_ifs
        · exact h
        · exact Program.similar_refl sameFault_refl _
    | error error =>
        dsimp only
        split
        · refine Program.similar_log ?_
          split_ifs
          · exact h
          · exact Program.similar_refl sameFault_refl _
        · exact Program.similar_refl sameFault_refl _
  · exact Program.similar_refl sameFault_refl _
  · exact h

theorem similar_accessLog {excludeRoutes : List Text} (h : Program.Similar SameFault app other) :
    Program.Similar SameFault (accessLog excludeRoutes scope app) (accessLog excludeRoutes scope other) := by
  unfold accessLog
  split_ifs
  · exact h
  · refine Program.similar_guard (fun status result result' hresult => ?_) none h
    cases hresult with
    | none => exact Program.similar_refl sameFault_refl _
    | some hsame =>
        -- A failed request is never left out of the log.
        have hfailed : ∀ error : Thrown, ∃ record, writeLog (L := L) scope excludeRoutes status (some error) =
            some record := by
          intro error
          unfold writeLog
          dsimp only
          rw [if_neg (by simp)]
          exact ⟨_, rfl⟩
        obtain ⟨record, hrecord⟩ := hfailed _
        obtain ⟨record', hrecord'⟩ := hfailed _
        unfold logAccess
        rw [hrecord, hrecord']
        exact Program.similar_log (Program.similar_raise hsame)

-- Applications that differ in their log and in the faults that they raise are the same application to
-- everyone who exchanges messages with them through the middlewares.
theorem middlewares_hide {settings : StackSettings} (h : Program.Similar SameFault app other)
    {events : List (Event (Await A) (Reply RA) (Record L) Thrown)} {outcome : Outcome (Await A) Thrown}
    (hrun : (middlewares framework builder requestId settings scope app).Runs events outcome) :
    ∃ events' outcome', (middlewares framework builder requestId settings scope other).Runs events' outcome' ∧
      exchanges events' = exchanges events ∧ Program.OutcomeLike SameFault outcome outcome' := by
  refine Program.Similar.runs ?_ hrun
  have hlimited : Program.Similar SameFault
      (if settings.rateLimitEnabled then rateLimit framework builder requestId settings.rateLimit scope app
      else app)
      (if settings.rateLimitEnabled then rateLimit framework builder requestId settings.rateLimit scope other
      else other) := by
    split_ifs
    · exact similar_rateLimit h
    · exact h
  rw [middlewares_eq, middlewares_eq]
  split_ifs
  · exact similar_accessLog (similar_captureExceptions hlimited)
  · exact similar_captureExceptions hlimited

-- An application that only raises is answered.
theorem runs_faulty {type : TypeName} {response : Response}
    (h : renderException plainFramework service none (.ofType type) = .ok response) :
    (middlewares plainFramework service none accessOnly getUsers (Program.raise (.ofType type) : PlainApp)).Runs
      [.logged (.unhandledException "GET" false type)]
      (.waiting (.send (.responseStart response.statusCode response.headers))) := by
  have hcaptured : (captureExceptions plainFramework service none false getUsers
      (Program.raise (.ofType type) : PlainApp)).Runs [.logged (.unhandledException "GET" false type)]
      (.waiting (.send (.responseStart response.statusCode response.headers))) := by
    refine Program.runs_guard.mpr (.inr ⟨[], _, some (.ofType type), rfl, Program.runs_raise.mpr ⟨rfl, rfl⟩, ?_⟩)
    refine Program.runs_log.mpr ⟨[], rfl, ?_⟩
    change (sendBuilt (renderException plainFramework service none (.ofType type))).Runs _ _
    rw [h]
    exact Program.runs_perform.mpr (.inl ⟨rfl, rfl⟩)
  exact Program.runs_guard.mpr (.inl ⟨_, rfl, hcaptured⟩)

theorem middlewares_hide_type : ∃ response events outcome,
    renderException plainFramework service none (.ofType valueError) = .ok response ∧
      (middlewares plainFramework service none accessOnly getUsers
        (Program.raise (.ofType runtimeError) : PlainApp)).Runs events outcome ∧ exchanges events = [] ∧
      Program.OutcomeLike SameFault (.waiting (.send (.responseStart response.statusCode response.headers)))
        outcome := by
  obtain ⟨response, hresponse, -⟩ : ∃ response,
      renderException plainFramework service none (.ofType valueError) = .ok response ∧ response.statusCode = 500 :=
    renderException_fault_ok plainFramework_documented nofun rfl
  have happs : Program.Similar SameFault (Program.raise (.ofType valueError) : PlainApp)
      (Program.raise (.ofType runtimeError)) := Program.similar_raise (.inr ⟨⟨rfl, rfl⟩, rfl, rfl⟩)
  obtain ⟨events, outcome, hrun, hsame, hlike⟩ := middlewares_hide happs (runs_faulty hresponse)
  exact ⟨response, events, outcome, hresponse, hrun, hsame, hlike⟩

end Hidden

section Recorded

variable {A : Type} {RA : A → Type} {L : Type} {framework : Framework} {builder : ResponseCodeBuilder}
  {requestId : Option Text} {settings : StackSettings} {scope : RequestScope} {app : App A RA L}

def Record.isAccess : Record L → Bool
  | .requestCompleted .. => true
  | _ => false

-- The access records of a run.
def accessRecords (events : List (Event (Await A) (Reply RA) (Record L) Thrown)) : List (Record L) :=
  (records events).filter Record.isAccess

-- An application that leaves the access log to the middleware.
def WritesNoAccess (app : App A RA L) : Prop :=
  ∀ events outcome, app.Runs events outcome → accessRecords events = []

-- The access records of a request: none while it waits, and when it has ended the one of the last
-- status that the server was given, if any.
def recordsOf (scope : RequestScope) (excludeRoutes : List Text) (sent : List Message) :
    Outcome (Await A) Thrown → List (Record L)
  | .returned => (writeLog scope excludeRoutes (lastStatus sent) none).toList
  | .raised error => (writeLog scope excludeRoutes (lastStatus sent) (some error)).toList
  | .waiting _ => []

theorem accessRecords_append (before after : List (Event (Await A) (Reply RA) (Record L) Thrown)) :
    accessRecords (before ++ after) = accessRecords before ++ accessRecords after := by
  rw [accessRecords, Program.records_append, List.filter_append]
  rfl

theorem accessRecords_asked {request : Await A} {answer : Except Thrown (Reply RA request)}
    {events : List (Event (Await A) (Reply RA) (Record L) Thrown)} :
    accessRecords (.asked request answer :: events) = accessRecords events := rfl

theorem accessRecords_logged {record : Record L} {events : List (Event (Await A) (Reply RA) (Record L) Thrown)}
    (h : record.isAccess = false) : accessRecords (.logged record :: events) = accessRecords events := by
  change (record :: records events).filter Record.isAccess = _
  rw [List.filter_cons_of_neg (by simp [h])]
  rfl

theorem accessRecords_map_logged (written : List (Record L)) (h : ∀ record ∈ written, record.isAccess = true) :
    accessRecords (written.map (Event.logged : Record L → Event (Await A) (Reply RA) (Record L) Thrown)) =
      written := by
  rw [accessRecords, Program.records_map_logged]
  exact List.filter_eq_self.mpr h

theorem isAccess_writeLog {excludeRoutes : List Text} {status : Option Nat} {result : Option Thrown} :
    ∀ record ∈ (writeLog (L := L) scope excludeRoutes status result).toList, record.isAccess = true := by
  intro record hrecord
  unfold writeLog at hrecord
  dsimp only at hrecord
  generalize status.getD (if result.any isCancelled = true then 499 else 500) = effective at hrecord
  split_ifs at hrecord
  · cases hrecord
  · rw [Option.toList_some, List.mem_singleton] at hrecord
    exact hrecord ▸ rfl

theorem writesNoAccess_sendBuilt (result : Except TypeName Response) :
    WritesNoAccess (sendBuilt result : App A RA L) := by
  intro events outcome h
  obtain ⟨type, -, rfl, -⟩ | ⟨response, -, hresponse⟩ := runs_sendBuilt h
  · rfl
  · rw [accessRecords, (runs_sendResponse hresponse).1]
    rfl

theorem writesNoAccess_rateLimit {middleware : RateLimitMiddleware} (happ : WritesNoAccess app) :
    WritesNoAccess (rateLimit framework builder requestId middleware scope app) := by
  intro events outcome h
  cases runs_rateLimit h with
  | free _ hrun => exact happ _ _ hrun
  | unwired => rfl
  | waiting => rfl
  | admitted _ hrun => exact accessRecords_asked.trans (happ _ _ hrun)
  | rejected _ hrun => exact accessRecords_asked.trans (writesNoAccess_sendBuilt _ _ _ hrun)
  | unlimited _ _ hrun => exact (accessRecords_asked.trans (accessRecords_logged rfl)).trans (happ _ _ hrun)
  | unavailable _ hrun =>
      exact (accessRecords_asked.trans (accessRecords_logged rfl)).trans (writesNoAccess_sendBuilt _ _ _ hrun)
  | raised => rfl

theorem writesNoAccess_captureExceptions {debug : Bool} (hscope : scope.type = "http")
    (happ : WritesNoAccess app) :
    WritesNoAccess (captureExceptions framework builder requestId debug scope app) := by
  intro events outcome h
  cases runs_captureExceptions hscope h with
  | passed hrun _ => exact happ _ _ hrun
  | failed hrun _ =>
      rw [accessRecords_append, happ _ _ hrun]
      rfl
  | answered hrun _ hafter =>
      rw [accessRecords_append, happ _ _ hrun, accessRecords_logged rfl, writesNoAccess_sendBuilt _ _ _ hafter]
      rfl

-- Whatever becomes of a request, the access log gets nothing before it ends, and then the record of the
-- response that the server was given and of the way the request ended.
theorem middlewares_access (hscope : scope.type = "http") (haccess : settings.accessEnabled = true)
    (happ : WritesNoAccess app) {events : List (Event (Await A) (Reply RA) (Record L) Thrown)}
    {outcome : Outcome (Await A) Thrown}
    (h : (middlewares framework builder requestId settings scope app).Runs events outcome) :
    accessRecords events =
      recordsOf scope settings.accessExcludeRoutes (messages events outcome) outcome := by
  have hinner : WritesNoAccess (capturedPart framework builder requestId settings scope app) := by
    refine writesNoAccess_captureExceptions hscope ?_
    split_ifs
    · exact writesNoAccess_rateLimit happ
    · exact happ
  rw [middlewares_eq, if_pos haccess] at h
  obtain ⟨request, rfl, hrun⟩ | ⟨before, result, rfl, hrun, rfl⟩ := runs_accessLog hscope h
  · exact hinner _ _ hrun
  · rw [messages_map_logged, accessRecords_append, hinner _ _ hrun, List.nil_append,
      accessRecords_map_logged _ isAccess_writeLog, messages_ends]
    cases result <;> rfl

theorem middlewares_access_broken :
    accessRecords (brokenEvents ++ brokenRecords.map .logged) =
      recordsOf getUsers [] [.responseStart 200 []] (.raised (.ofType valueError) : Outcome (Await Empty) Thrown) :=
  middlewares_access rfl rfl (fun _ _ h => by rw [accessRecords, (brokenApp_cases h).1]; rfl) runs_broken

end Recorded

end Scaffold.Http
