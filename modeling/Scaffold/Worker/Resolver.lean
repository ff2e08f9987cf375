import Scaffold.Queue.Job

namespace Scaffold.Worker

open Queue

inductive ResolverError where
  | invalidDefinition
  | duplicateReference (reference : String)
  | unsupportedJobVersion
  deriving DecidableEq, Repr

def ResolverError.text : ResolverError → String
  | .invalidDefinition => "发现的队列任务定义不合法"
  | .duplicateReference reference => "队列任务引用 " ++ Python.repr (fun _ => true) reference ++ " 重复"
  | .unsupportedJobVersion => "任务消息版本不受支持"

inductive ResolveError where
  | unknownJob
  | unsupportedJobVersion
  deriving DecidableEq, Repr

structure JobBinding (T C P : Type) where
  descriptor : JobDescriptor T C P
  decoder : C

-- The catalogue while it is built, and the finished one.
structure Catalogue (T C P : Type) where
  descriptors : List (JobDescriptor T C P) := []
  bindings : String × Int → Option (JobBinding T C P) := fun _ => none
  references : List String := []

section Build

variable {T C P : Type}

def addReferences : List String → List String → Except ResolverError (List String)
  | known, [] => .ok known
  | known, reference :: rest =>
      if reference ∈ known then .error (.duplicateReference reference)
      else addReferences (known ++ [reference]) rest

def bindVersion (descriptor : JobDescriptor T C P) (reference : String)
    (bindings : String × Int → Option (JobBinding T C P)) (version : Int) :
    Except ResolverError (String × Int → Option (JobBinding T C P)) :=
  match descriptor.decoderFor (some version) with
  | none => .error .unsupportedJobVersion
  | some decoder => .ok (Function.update bindings (reference, version) (some { descriptor, decoder }))

def bindReference (descriptor : JobDescriptor T C P)
    (bindings : String × Int → Option (JobBinding T C P)) (reference : String) :
    Except ResolverError (String × Int → Option (JobBinding T C P)) :=
  descriptor.versions.foldlM (bindVersion descriptor reference) bindings

def addType (catalogue : Catalogue T C P) (job : JobClass T C P) : Except ResolverError (Catalogue T C P) :=
  match describeJob job with
  | .error _ => .error .invalidDefinition
  | .ok descriptor => do
      let references ← addReferences catalogue.references descriptor.references
      let bindings ← descriptor.references.foldlM (bindReference descriptor) catalogue.bindings
      return { descriptors := catalogue.descriptors ++ [descriptor], bindings, references }

-- `descriptors.sort(key=lambda descriptor: descriptor.reference)`
def sortByReference (descriptors : List (JobDescriptor T C P)) : List (JobDescriptor T C P) :=
  descriptors.mergeSort fun a b => a.reference ≤ b.reference

-- `JobResolver.__post_init__`
def jobResolver (jobTypes : List (JobClass T C P)) : Except ResolverError (Catalogue T C P) := do
  let catalogue ← jobTypes.foldlM addType {}
  return { catalogue with descriptors := sortByReference catalogue.descriptors }

-- The version of a message that is no `int` is `none`.
def Catalogue.resolve (catalogue : Catalogue T C P) (reference : String) (version : Option Int) :
    Except ResolveError (JobBinding T C P) :=
  if reference ∉ catalogue.references then .error .unknownJob
  else
    match version with
    | none => .error .unsupportedJobVersion
    | some version =>
        if version < 1 then .error .unsupportedJobVersion
        else
          match catalogue.bindings (reference, version) with
          | none => .error .unsupportedJobVersion
          | some binding => .ok binding

end Build

end Scaffold.Worker
