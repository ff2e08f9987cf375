import Scaffold.Http.Response
import Scaffold.Program
import Scaffold.Python.IpAddress
import Scaffold.RateLimit.Redis

namespace Scaffold.Http

open Decimal (integerText)
open Python
open RateLimit (RateLimitDecision)

inductive Message where
  | responseStart (statusCode : Nat) (headers : Headers)
  | responseBody (body : List UInt8) (moreBody : Bool)
  | other (type : String)

-- What the middlewares read of an ASGI scope.
structure RequestScope where
  type : String
  method : String
  path : Text
  rootPath : Text
  headers : Headers
  client : Option (List Char × Nat)

-- What a request waits for: the server, the limiter, or whatever else the application uses.
inductive Await (A : Type) where
  | send (message : Message)
  | acquire (identity : String)
  | other (request : A)

def Reply {A : Type} (RA : A → Type) : Await A → Type
  | .send _ => Unit
  | .acquire _ => RateLimitDecision
  | .other request => RA request

inductive LogLevel where
  | info
  | warning
  | error
  deriving DecidableEq, Repr

-- The details of an access record but for the duration.
structure AccessDetails where
  method : String
  route : Text
  statusCode : Nat
  clientIp : Option (List Char)
  failed : Bool
  failureType : Option String

-- The records of the middlewares; stack traces are left out.
inductive Record (L : Type) where
  | requestCompleted (level : LogLevel) (details : AccessDetails)
  | unhandledException (method : String) (responseStarted : Bool) (errorType : TypeName)
  | rateLimitUnavailable (failOpen : Bool) (errorType : TypeName)
  | other (record : L)

section Middlewares

variable {A : Type} {RA : A → Type} {L : Type}

-- An ASGI application in one call.
abbrev App (A : Type) (RA : A → Type) (L : Type) : Type 1 :=
  Program (Await A) (Reply RA) (Record L) Thrown

def sendMessage (message : Message) (next : App A RA L) : App A RA L :=
  Program.perform (.send message) fun _ => next

-- `await response(scope, receive, send)`
def sendResponse (response : Response) : App A RA L :=
  sendMessage (.responseStart response.statusCode response.headers)
    (sendMessage (.responseBody response.body false) .done)

-- A response that is built and then sent.
def sendBuilt : Except TypeName Response → App A RA L
  | .error type => .raise (.ofType type)
  | .ok response => sendResponse response

section Capture

variable (framework : Framework) (builder : ResponseCodeBuilder) (requestId : Option Text)

def responseStarted (started : Bool) : Await A → Bool
  | .send (.responseStart ..) => true
  | _ => started

def handleFailure (debug : Bool) (scope : RequestScope) (started : Bool) :
    Option Thrown → App A RA L
  | none => .done
  | some exception =>
      if !exception.isException || debug then .raise exception
      else
        .log (.unhandledException scope.method started exception.type)
          (if started then .raise exception
          else sendBuilt (renderException framework builder requestId exception))

-- `ExceptionCaptureMiddleware`
def captureExceptions (debug : Bool) (scope : RequestScope) (app : App A RA L) : App A RA L :=
  if scope.type ≠ "http" then app
  else app.guard responseStarted (handleFailure framework builder requestId debug scope) false

end Capture

section Access

def sentStatus (status : Option Nat) : Await A → Option Nat
  | .send (.responseStart statusCode _) => some statusCode
  | _ => status

def isCancelled (exception : Thrown) : Bool :=
  match exception.kind with
  | .cancelled => true
  | _ => false

def getLogLevel (statusCode : Nat) (failed cancelled : Bool) : LogLevel :=
  if cancelled then .warning
  else if failed || 500 ≤ statusCode then .error
  else if 400 ≤ statusCode then .warning
  else .info

-- The name that the log has for what ended the request.
def failureType (exception : Thrown) : Option String :=
  match exception.kind with
  | .cancelled => some "CancelledError"
  | .interrupt => none
  | _ => some exception.type.name

def writeLog (scope : RequestScope) (excludeRoutes : List Text) (status : Option Nat)
    (result : Option Thrown) : Option (Record L) :=
  let cancelled := result.any isCancelled
  let failed := result.isSome
  let effectiveStatus := status.getD (if cancelled then 499 else 500)
  if excludeRoutes.contains scope.path && effectiveStatus < 400 && !failed then none
  else
    some (.requestCompleted (getLogLevel effectiveStatus failed cancelled) {
      method := scope.method
      route := scope.path
      statusCode := effectiveStatus
      clientIp := scope.client.map Prod.fst
      failed := failed
      failureType := result.bind failureType })

def logAccess (scope : RequestScope) (excludeRoutes : List Text) (status : Option Nat)
    (result : Option Thrown) : App A RA L :=
  match writeLog scope excludeRoutes status result with
  | none => Program.ending result
  | some record => .log record (Program.ending result)

-- `AccessLogMiddleware`
def accessLog (excludeRoutes : List Text) (scope : RequestScope) (app : App A RA L) : App A RA L :=
  if scope.type ≠ "http" then app
  else app.guard sentStatus (logAccess scope excludeRoutes) none

end Access

section RateLimiting

-- The path behind the prefix that the application is mounted at.
def relativePath (scope : RequestScope) : Text :=
  if scope.rootPath ≠ [] ∧ scope.rootPath.isPrefixOf scope.path = true then
    let rest := scope.path.drop scope.rootPath.length
    if rest = [] ∨ rest.head? = some (codePoint '/') then rest else scope.path
  else scope.path

def hasHeader (scope : RequestScope) (name : String) : Bool :=
  scope.headers.any fun header => header.1 = textOf name

def shouldLimit (scope : RequestScope) : Bool :=
  if scope.type ≠ "http" then false
  else
    let path := relativePath scope
    if path ≠ textOf "/api" ∧ (textOf "/api/").isPrefixOf path = false then false
    else
      !(scope.method = "OPTIONS" && hasHeader scope "origin" &&
        hasHeader scope "access-control-request-method")

-- The address that the quota of a client is counted under.
def clientAddress (client : List Char) : Option IpAddress :=
  (ipAddress client).map fun address =>
    match address with
    | .v4 address => .v4 address
    | .v6 address =>
        match address.ipv4Mapped with
        | some mapped => .v4 mapped
        | none => .v6 address

def clientIdentity (scope : RequestScope) : String :=
  match scope.client.bind fun client => clientAddress client.1 with
  | none => "ip:unknown"
  | some address => String.ofList ("ip:".toList ++ address.compressed)

variable (framework : Framework) (builder : ResponseCodeBuilder) (requestId : Option Text)

def noStore : Text × Text := (textOf "Cache-Control", textOf "no-store")

def retryAfter (decision : RateLimitDecision) : Text × Text :=
  (textOf "Retry-After", pointsOf (integerText decision.retryAfterSeconds))

-- The answer to a request that is not let through.
def rejectRequest (code : ErrorCode) (headers : Headers) : App A RA L :=
  sendBuilt (renderError framework builder requestId code.definition none none (some headers))

structure RateLimitMiddleware where
  failOpen : Bool
  -- whether the container has a limiter
  limiter : Bool

def limitAnswered (middleware : RateLimitMiddleware) (app : App A RA L) :
    Except Thrown RateLimitDecision → App A RA L
  | .error exception =>
      match exception.kind with
      | .rateLimitUnavailable =>
          .log (.rateLimitUnavailable middleware.failOpen exception.type)
            (if middleware.failOpen then app
            else rejectRequest framework builder requestId .serviceUnavailable [noStore])
      | _ => .raise exception
  | .ok decision =>
      if decision.allowed then app
      else rejectRequest framework builder requestId .tooManyRequests [noStore, retryAfter decision]

-- `RateLimitMiddleware.__call__`
def rateLimit (middleware : RateLimitMiddleware) (scope : RequestScope) (app : App A RA L) : App A RA L :=
  if shouldLimit scope then
    if middleware.limiter then
      .await (.acquire (clientIdentity scope)) (limitAnswered framework builder requestId middleware app)
    else .raise (.ofType runtimeError)
  else app

end RateLimiting

-- The settings that choose the middlewares.
structure StackSettings where
  debug : Bool
  accessEnabled : Bool
  accessExcludeRoutes : List Text
  rateLimitEnabled : Bool
  rateLimit : RateLimitMiddleware

-- The middlewares of `build_http_middlewares` inside of the trace context, around the rest.
def middlewares (framework : Framework) (builder : ResponseCodeBuilder) (requestId : Option Text)
    (settings : StackSettings) (scope : RequestScope) (app : App A RA L) : App A RA L :=
  let limited :=
    if settings.rateLimitEnabled then rateLimit framework builder requestId settings.rateLimit scope app
    else app
  let captured := captureExceptions framework builder requestId settings.debug scope limited
  if settings.accessEnabled then accessLog settings.accessExcludeRoutes scope captured else captured

end Middlewares

end Scaffold.Http
