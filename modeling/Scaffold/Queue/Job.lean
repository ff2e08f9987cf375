import Mathlib.Data.List.Infix
import Scaffold.Python.Repr
import Scaffold.Queue.Contracts

namespace Scaffold.Queue

open Python (strip)

inductive JobError where
  | configuration (text : String)
  | typeError (text : String)
  | raised
  deriving DecidableEq, Repr

-- A class attribute that should be a string or `None`.
inductive TextAttribute where
  | none
  | text (value : String)
  | other
  deriving DecidableEq, Repr

-- A codec or a decoder: the object and which of its two methods can be called.
structure CodecObject (C : Type) where
  object : C
  encodes : Bool
  decodes : Bool
  deriving DecidableEq, Repr

-- What the checks see of a class. An attribute of another type than the code asks for is `none`;
-- `jsonCodec` is what the default codec makes of the class, if it accepts it.
structure JobClass (T C P : Type) where
  cls : T
  isQueueJob : Bool := true
  isAbstract : Bool := false
  moduleName : String
  qualname : String
  reference : TextAttribute := .none
  legacyReferences : Option (List (Option String)) := some []
  version : Option Int := some 1
  policy : Option P
  codec : Option (CodecObject C) := none
  jsonCodec : Option C
  legacyDecoders : Option (List (Option Int × CodecObject C)) := some []

structure JobDescriptor (T C P : Type) where
  reference : String
  legacyReferences : List String
  version : Int
  jobType : T
  codec : C
  legacyDecoders : List (Int × C)
  policy : P
  deriving DecidableEq

section Describe

variable {T C P : Type}

def isReferenceChar (c : Char) : Bool := c.isAlphanum || c = '_' || c = '.' || c = ':' || c = '-'

-- `[A-Za-z0-9][A-Za-z0-9_.:-]{0,499}`
def matchesReference : List Char → Bool
  | first :: rest => first.isAlphanum && rest.length ≤ 499 && rest.all isReferenceChar
  | [] => false

def validateJobReference (label : String) : Option String → Except JobError String
  | some value =>
      if matchesReference value.toList then .ok value else .error (.configuration (label ++ "不合法"))
  | none => .error (.configuration (label ++ "不合法"))

def jobTypePath (job : JobClass T C P) : Except JobError String :=
  if strip job.moduleName = "" ∨ strip job.qualname = "" ∨
      "<locals>".toList <:+: (strip job.qualname).toList then
    .error (.configuration "队列任务必须是可导入的模块级类")
  else validateJobReference "任务类路径" (some (strip job.moduleName ++ ":" ++ strip job.qualname))

def jobReference (job : JobClass T C P) : Except JobError String := do
  let default ← jobTypePath job
  match job.reference with
  | .none => return default
  | .text value => validateJobReference "任务稳定引用" (some value)
  | .other => validateJobReference "任务稳定引用" none

def validateLegacyReferences (job : JobClass T C P) (reference : String) : Except JobError (List String) :=
  match job.legacyReferences with
  | none => .error (.configuration "任务历史引用必须是元组")
  | some configured => do
      let legacy ← configured.mapM (validateJobReference "任务历史引用")
      if reference ∈ legacy ∨ ¬ legacy.Nodup then
        throw (.configuration "任务历史引用不能与当前引用或彼此重复")
      return legacy

def checkJobClass (job : JobClass T C P) : Except JobError Unit :=
  if ¬ job.isQueueJob then .error (.configuration "任务类型必须继承 QueueJob")
  else if job.isAbstract then .error (.configuration "任务类型不能是抽象类")
  else .ok ()

def jobVersion (job : JobClass T C P) : Except JobError Int :=
  match job.version with
  | none => .error (.configuration "任务版本不合法")
  | some version => if version < 1 then .error (.configuration "任务版本不合法") else .ok version

def jobPolicy (job : JobClass T C P) : Except JobError P :=
  match job.policy with
  | none => .error (.configuration "任务策略不合法")
  | some policy => .ok policy

def jobCodec (job : JobClass T C P) : Except JobError C :=
  match job.codec with
  | none =>
      match job.jsonCodec with
      | none => .error .raised
      | some codec => .ok codec
  | some codec =>
      if ¬ codec.encodes ∨ ¬ codec.decodes then .error (.configuration "任务 Codec 不合法") else .ok codec.object

def legacyDecoder (version : Int) (item : Option Int × CodecObject C) : Except JobError (Int × C) :=
  match item.1 with
  | none => .error (.configuration "任务历史版本必须是小于当前版本的正整数")
  | some legacyVersion =>
      if ¬ (1 ≤ legacyVersion ∧ legacyVersion < version) then
        .error (.configuration "任务历史版本必须是小于当前版本的正整数")
      else if ¬ item.2.decodes then .error (.configuration "任务历史 Decoder 不合法")
      else .ok (legacyVersion, item.2.object)

def jobDecoders (job : JobClass T C P) (version : Int) : Except JobError (List (Int × C)) :=
  match job.legacyDecoders with
  | none => .error (.configuration "任务历史 Decoder 配置不合法")
  | some configured => configured.mapM (legacyDecoder version)

def describeJob (job : JobClass T C P) : Except JobError (JobDescriptor T C P) := do
  checkJobClass job
  let reference ← jobReference job
  let legacyReferences ← validateLegacyReferences job reference
  let version ← jobVersion job
  let policy ← jobPolicy job
  let codec ← jobCodec job
  let legacyDecoders ← jobDecoders job version
  return { reference, legacyReferences, version, jobType := job.cls, codec, legacyDecoders, policy }

-- Every reference a message may carry for the type, the current one first.
def JobDescriptor.references (descriptor : JobDescriptor T C P) : List String :=
  descriptor.reference :: descriptor.legacyReferences

def JobDescriptor.versions (descriptor : JobDescriptor T C P) : List Int :=
  descriptor.version :: descriptor.legacyDecoders.map Prod.fst

end Describe

section Encode

variable {T C P : Type}

-- A later item of the mapping replaces an earlier one with the same version. The version of a
-- message that is no `int` is `none`.
def JobDescriptor.decoderFor (descriptor : JobDescriptor T C P) : Option Int → Option C
  | none => none
  | some version =>
      if version < 1 then none
      else if version = descriptor.version then some descriptor.codec
      else descriptor.legacyDecoders.reverse.lookup version

-- An instance of a job class, and what a codec writes for it, if it does not raise.
structure JobInstance (T C P : Type) where
  type : JobClass T C P
  encodedBy : C → Option Bytes

structure EncodedJob where
  jobType : String
  version : Int
  payload : Bytes
  deriving DecidableEq

def JobDescriptor.encode [DecidableEq T] (descriptor : JobDescriptor T C P) (job : JobInstance T C P) :
    Except JobError EncodedJob :=
  if job.type.cls ≠ descriptor.jobType then .error (.typeError "任务类型与描述类型不一致")
  else
    match job.encodedBy descriptor.codec with
    | none => .error .raised
    | some payload => .ok { jobType := descriptor.reference, version := descriptor.version, payload }

def encodeJob [DecidableEq T] (job : JobInstance T C P) : Except JobError EncodedJob :=
  if ¬ job.type.isQueueJob then .error (.configuration "任务必须继承 QueueJob")
  else do
    let descriptor ← describeJob job.type
    descriptor.encode job

end Encode

end Scaffold.Queue
