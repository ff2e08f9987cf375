import Scaffold.Decimal
import Scaffold.Python.Base64
import Scaffold.Python.Datetime
import Scaffold.Python.Json
import Scaffold.Queue.Manager

namespace Scaffold.Queue

open Decimal Python

structure EnvelopeData where
  schemaVersion : Int := 2
  jobId : Uuid
  jobType : String
  jobVersion : Int
  payload : String
  enqueuedAt : Datetime
  correlationId : Option String := none
  replayOf : Option Uuid := none
  deriving DecidableEq

-- The constraints of the fields and the two field validators.
def EnvelopeData.valid (d : EnvelopeData) : Bool :=
  (2 ≤ d.schemaVersion ∧ d.schemaVersion ≤ 2) ∧
    (1 ≤ d.jobType.length ∧ d.jobType.length ≤ 500) ∧ 1 ≤ d.jobVersion ∧
    (d.correlationId.all fun id => id.length ≤ 200) ∧
    d.enqueuedAt.tzinfo = none ∧ strip d.jobType ≠ ""

-- `model_dump_json` of valid data, whose time has no zone.
def dumpJson (d : EnvelopeData) : Bytes :=
  utf8 (jsonObject "schema_version" (integerText d.schemaVersion) [
    ("job_id", jsonString (uuidText d.jobId).toList),
    ("job_type", jsonString d.jobType.toList),
    ("job_version", integerText d.jobVersion),
    ("payload", jsonString d.payload.toList),
    ("enqueued_at", jsonString d.enqueuedAt.wall.isoformat),
    ("correlation_id", jsonOption (d.correlationId.map String.toList)),
    ("replay_of", jsonOption (d.replayOf.map fun id => (uuidText id).toList))])

-- What `json.loads` of a payload may raise.
inductive LoadsError where
  | valueError
  | recursionError
  deriving DecidableEq, Repr

inductive EnvelopeError where
  | encode
  | decode
  | size
  | recursion
  deriving DecidableEq, Repr

def EnvelopeError.text : EnvelopeError → String
  | .encode => "任务信封编码失败"
  | .decode => "任务信封解码失败"
  | .size => "任务信封超过大小限制"
  | .recursion => "maximum recursion depth exceeded"

-- Whether the exception is an `InvalidMessageError`.
def EnvelopeError.isInvalidMessage : EnvelopeError → Bool
  | .recursion => false
  | _ => true

-- The exceptions of `publish_envelope`.
inductive PublishError where
  | inactive
  | queueName
  | envelope (error : EnvelopeError)
  | unconfirmed
  deriving DecidableEq, Repr

def PublishError.isQueueError : PublishError → Bool
  | .envelope error => error.isInvalidMessage
  | _ => true

def envelopeData (message : MessageEnvelope Datetime) : EnvelopeData where
  jobId := message.jobId
  jobType := message.jobType
  jobVersion := message.jobVersion
  payload := .ofList (b64encode message.payload)
  enqueuedAt := message.enqueuedAt
  correlationId := message.correlationId
  replayOf := message.replayOf

section Codec

-- `loads` is `json.loads` with its constants refused. `parse` gives the fields of a JSON object with
-- the declared keys and types, as `model_validate_json` reads them before it checks the constraints.
variable (loads : Bytes → Except LoadsError Unit) (parse : Bytes → Option EnvelopeData) (maxBytes : Int)

def checkSize (raw : Bytes) : Except EnvelopeError Unit :=
  if maxBytes < raw.length then .error .size else .ok ()

def encode (message : MessageEnvelope Datetime) : Except EnvelopeError Bytes :=
  match loads message.payload with
  | .error .valueError => .error .encode
  | .error .recursionError => .error .recursion
  | .ok () =>
      let data := envelopeData message
      if data.valid then
        let raw := dumpJson data
        match checkSize maxBytes raw with
        | .error error => .error error
        | .ok () => .ok raw
      else .error .encode

def decode (raw : Bytes) : Except EnvelopeError (MessageEnvelope Datetime) :=
  match checkSize maxBytes raw with
  | .error error => .error error
  | .ok () =>
      match parse raw with
      | none => .error .decode
      | some data =>
          if data.valid then
            match b64decode data.payload.toList with
            | none => .error .decode
            | some payload =>
                match loads payload with
                | .error _ => .error .decode
                | .ok () =>
                    .ok {
                      jobId := data.jobId
                      jobType := data.jobType
                      jobVersion := data.jobVersion
                      payload := payload
                      enqueuedAt := data.enqueuedAt
                      correlationId := data.correlationId
                      replayOf := data.replayOf }
          else .error .decode

-- `publish_envelope` of a dispatcher: `active` says whether `ensure_active` returns, and `publish`
-- whether the publisher returns in time.
def Dispatcher.publishEnvelope {V : Type*} (d : Dispatcher V) (active : Bool)
    (publish : String → Bytes → Bool)
    (message : MessageEnvelope Datetime) (queue : Option String) : Except PublishError Unit :=
  if ¬ active then .error .inactive
  else
    match validateQueueName (queue.getD d.defaultQueue) with
    | none => .error .queueName
    | some target =>
        match encode loads maxBytes message with
        | .error error => .error (.envelope error)
        | .ok payload => if publish target payload then .ok () else .error .unconfirmed

-- The manager's codec, beside the job codecs and the errors of its drivers.
def envelopeCodecs {J : Type*} (encodeJob : J → Option (String × Int × Bytes)) (isQueueError : Nat → Bool) :
    Codecs J Datetime where
  encodeJob := encodeJob
  encode message := (encode loads maxBytes message).toOption
  decode raw := (decode loads parse maxBytes raw).toOption
  isQueueError := isQueueError

end Codec

-- What `replay` makes of the message of a record.
def replayed (message : MessageEnvelope Datetime) (failureId newId : Uuid) (now : NaiveDatetime) :
    MessageEnvelope Datetime :=
  { message with jobId := newId, enqueuedAt := { wall := now }, replayOf := some failureId }

-- pydantic reads integers of at most 4300 digits.
def versionLimit : Int := 10 ^ 4300

-- The bytes of a time and of an optional UUID in the JSON of an envelope.
def timeWidth (time : NaiveDatetime) : Nat :=
  if time.microsecond = 0 then 21 else 28

def replayWidth (replayOf : Option Uuid) : Nat :=
  if replayOf = none then 4 else 38

end Scaffold.Queue
