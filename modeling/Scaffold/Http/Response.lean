import Scaffold.Python.JsonRepr

namespace Scaffold.Http

open Decimal (decimal)
open Python

-- The module, the qualified name and the name of a class.
structure TypeName where
  module : String
  qualname : String
  name : String
  deriving DecidableEq, Repr

def TypeName.builtin (name : String) : TypeName := { module := "builtins", qualname := name, name := name }

def valueError : TypeName := .builtin "ValueError"

def unicodeEncodeError : TypeName := .builtin "UnicodeEncodeError"

def runtimeError : TypeName := .builtin "RuntimeError"

def recursionError : TypeName := .builtin "RecursionError"

-- The characters after ASCII may be digits of other scripts, and are let through.
def mayBeDigit (c : CodePoint) : Bool :=
  (128 ≤ c.val && !isSurrogate c) || (48 ≤ c.val && c.val < 58)

-- `len(text) == count and text.isdigit()`
def IsDigits (count : Nat) (text : Text) : Prop :=
  text.length = count ∧ text.all mayBeDigit = true

instance instDecidableIsDigits (count : Nat) (text : Text) : Decidable (IsDigits count text) :=
  inferInstanceAs (Decidable (_ ∧ _))

def IsStatus (status : Nat) : Prop := 100 ≤ status ∧ status ≤ 599

instance instDecidableIsStatus (status : Nat) : Decidable (IsStatus status) :=
  inferInstanceAs (Decidable (_ ∧ _))

-- The constructor refuses other values.
structure CodeDefinition where
  code : Text
  message : Text
  statusCode : Nat
  digits : IsDigits 4 code
  status : IsStatus statusCode

inductive ErrorCode where
  | badRequest
  | unauthorized
  | forbidden
  | routeNotFound
  | resourceNotFound
  | methodNotAllowed
  | conflict
  | validationError
  | tooManyRequests
  | internalError
  | serviceUnavailable
  deriving DecidableEq, Repr

namespace ErrorCode

def code : ErrorCode → Text
  | resourceNotFound => pointsOf ['0', '1', '0', '2']
  | _ => pointsOf ['0', '1', '0', '1']

def message : ErrorCode → Text
  | badRequest => textOf "请求内容有误，请检查后重试"
  | unauthorized => textOf "未授权，请先登录"
  | forbidden => textOf "无权限访问"
  | routeNotFound => textOf "未定义路由"
  | resourceNotFound => textOf "请求的数据不存在或已被删除"
  | methodNotAllowed => textOf "该接口不支持当前请求方式"
  | conflict => textOf "当前数据状态已发生变化，请刷新后重试"
  | validationError => textOf "请求参数有误，请检查后重试"
  | tooManyRequests => textOf "操作过于频繁，请稍后重试"
  | internalError => textOf "网络开小差了，请稍后重试"
  | serviceUnavailable => textOf "服务暂时不可用，请稍后重试"

def statusCode : ErrorCode → Nat
  | badRequest => 400
  | unauthorized => 401
  | forbidden => 403
  | routeNotFound => 404
  | resourceNotFound => 404
  | methodNotAllowed => 405
  | conflict => 409
  | validationError => 422
  | tooManyRequests => 429
  | internalError => 500
  | serviceUnavailable => 503

theorem digits (c : ErrorCode) : IsDigits 4 c.code := by
  cases c <;> decide

theorem status (c : ErrorCode) : IsStatus c.statusCode := by
  cases c <;> decide

def definition (c : ErrorCode) : CodeDefinition where
  code := c.code
  message := c.message
  statusCode := c.statusCode
  digits := c.digits
  status := c.status

end ErrorCode

structure ResponseCodeBuilder where
  serviceCode : Text
  digits : IsDigits 3 serviceCode

-- `f"{status_code:03d}"`
def statusText (status : Nat) : List Char := (decimal status).leftpad 3 '0'

def ResponseCodeBuilder.build (builder : ResponseCodeBuilder) (code : CodeDefinition) : Text :=
  pointsOf (statusText code.statusCode) ++ builder.serviceCode ++ code.code

-- An object by what `model_dump(mode="json")` makes of it.
abbrev Dump := Except TypeName JsonValue

abbrev Headers := List (Text × Text)

structure JsonResponse where
  code : Text
  success : Bool
  message : Text
  data : Option Dump
  requestId : Option Text

-- `JsonResponseFactory.error` with the request identifier of the context.
def JsonResponseFactory.error (builder : ResponseCodeBuilder) (requestId : Option Text) (code : CodeDefinition)
    (message : Option Text) (data : Option Dump) : Except TypeName JsonResponse :=
  if code.statusCode < 400 then .error valueError
  else .ok {
    code := builder.build code
    success := false
    message := message.getD code.message
    data := data
    requestId := requestId }

-- `model_dump(mode="json")`: the request identifier is left out when there is none.
def JsonResponse.modelDump (response : JsonResponse) : Dump := do
  let data ← response.data.getD (.ok .null)
  .ok (.dict ([(textOf "code", .str response.code), (textOf "success", .bool response.success),
    (textOf "message", .str response.message), (textOf "data", data)] ++
      (response.requestId.map fun id => (textOf "request_id", .str id)).toList))

mutual

-- Without a float that JSON does not have.
def finiteValue : JsonValue → Bool
  | .float value => value.isfinite
  | .list items => finiteItems items
  | .dict items => finiteFields items
  | _ => true

def finiteItems : List JsonValue → Bool
  | [] => true
  | item :: rest => finiteValue item && finiteItems rest

def finiteFields : List (Text × JsonValue) → Bool
  | [] => true
  | (_, value) :: rest => finiteValue value && finiteFields rest

end

structure Response where
  statusCode : Nat
  headers : Headers
  body : List UInt8

-- Raised by an endpoint. The constructor refuses codes that are no errors.
structure HttpError where
  code : CodeDefinition
  message : Text
  data : Option Dump
  headers : Option Headers
  error : 400 ≤ code.statusCode

-- `message if message is not None else code.message`
def HttpError.create (code : CodeDefinition) (error : 400 ≤ code.statusCode) (message : Option Text)
    (data : Option Dump) (headers : Option Headers) : HttpError where
  code := code
  message := message.getD code.message
  data := data
  headers := headers
  error := error

inductive Detail where
  | text (detail : Text)
  | other (detail : Dump)

-- `starlette.exceptions.HTTPException`
structure HTTPException where
  statusCode : Nat
  detail : Detail
  headers : Option Headers

-- An item of `RequestValidationError.errors()`.
structure ValidationError where
  type : Text
  loc : List (Text ⊕ Int)
  msg : Text
  input : Dump

inductive Kind where
  | cancelled
  | interrupt
  | httpError (error : HttpError)
  | requestValidation (errors : List ValidationError)
  | httpException (exception : HTTPException)
  | rateLimitUnavailable
  | other

-- An exception: its class and, of the kinds that are told apart, its contents.
structure Thrown where
  type : TypeName
  kind : Kind

-- `isinstance(exception, Exception)`
def Thrown.isException (thrown : Thrown) : Bool :=
  match thrown.kind with
  | .cancelled | .interrupt => false
  | _ => true

def Thrown.ofType (type : TypeName) : Thrown := { type := type, kind := .other }

-- What the handlers use of the web framework.
structure Framework where
  -- the headers of a response with its body
  initHeaders : Nat → List UInt8 → Option Headers → Except TypeName Headers
  -- `http_exception_handler`
  httpExceptionHandler : HTTPException → Except TypeName Response
  -- how deep `json.dumps` may go
  limit : Nat

section Render

variable (framework : Framework) (builder : ResponseCodeBuilder) (requestId : Option Text)

-- `starlette.responses.JSONResponse.render`
def jsonRender (content : JsonValue) : Except TypeName (List UInt8) :=
  if framework.limit < content.depth then .error recursionError
  else if finiteValue content then
    match encodeUtf8 (dumps (textOf ",") (textOf ":") content) with
    | some body => .ok body
    | none => .error unicodeEncodeError
  else .error valueError

def starletteJsonResponse (statusCode : Nat) (content : JsonValue) (headers : Option Headers) :
    Except TypeName Response := do
  let body ← jsonRender framework content
  let headers ← framework.initHeaders statusCode body headers
  .ok { statusCode := statusCode, headers := headers, body := body }

def renderError (code : CodeDefinition) (message : Option Text) (data : Option Dump)
    (headers : Option Headers) : Except TypeName Response := do
  let payload ← JsonResponseFactory.error builder requestId code message data
  let content ← payload.modelDump
  starletteJsonResponse framework code.statusCode content headers

def handleHttpError (error : HttpError) : Except TypeName Response :=
  if 500 ≤ error.code.statusCode then
    renderError framework builder requestId ErrorCode.internalError.definition none none none
  else renderError framework builder requestId error.code (some error.message) error.data error.headers

def locationItem : Text ⊕ Int → JsonValue
  | .inl name => .str name
  | .inr index => .int index

def buildValidationData (errors : List ValidationError) : JsonValue :=
  .list (errors.map fun error => .dict [(textOf "type", .str error.type),
    (textOf "location", .list (error.loc.map locationItem)), (textOf "message", .str error.msg)])

def handleRequestValidationError (errors : List ValidationError) : Except TypeName Response :=
  renderError framework builder requestId ErrorCode.validationError.definition none
    (some (.ok (buildValidationData errors))) none

def httpErrorCodes : List (Nat × ErrorCode) :=
  [(400, .badRequest), (401, .unauthorized), (403, .forbidden), (404, .routeNotFound),
    (405, .methodNotAllowed), (409, .conflict), (422, .validationError), (429, .tooManyRequests),
    (500, .internalError)]

def resolveHttpErrorCode (statusCode : Nat) : Except TypeName CodeDefinition :=
  match httpErrorCodes.lookup statusCode with
  | some code => .ok code.definition
  | none =>
      let template := if 500 ≤ statusCode then ErrorCode.internalError else ErrorCode.badRequest
      if h : IsStatus statusCode then
        .ok {
          code := template.code
          message := template.message
          statusCode := statusCode
          digits := template.digits
          status := h }
      else .error valueError

def resolveHttpExceptionContent (exception : HTTPException) : Option Text × Option Dump :=
  if 500 ≤ exception.statusCode then (none, none)
  else if exception.statusCode = 404 ∨ exception.statusCode = 405 then (none, none)
  else
    match exception.detail with
    | .text detail => (some detail, none)
    | .other detail => (none, some detail)

def handleHttpException (exception : HTTPException) : Except TypeName Response :=
  if exception.statusCode < 400 then framework.httpExceptionHandler exception
  else do
    let code ← resolveHttpErrorCode exception.statusCode
    let (message, data) := resolveHttpExceptionContent exception
    renderError framework builder requestId code message data exception.headers

def handleUnexpectedException : Except TypeName Response :=
  renderError framework builder requestId ErrorCode.internalError.definition none none none

def renderException (exception : Thrown) : Except TypeName Response :=
  match exception.kind with
  | .httpError error => handleHttpError framework builder requestId error
  | .requestValidation errors => handleRequestValidationError framework builder requestId errors
  | .httpException exception => handleHttpException framework builder requestId exception
  | _ => handleUnexpectedException framework builder requestId

end Render

end Scaffold.Http
