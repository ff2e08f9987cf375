import Mathlib.Data.List.Basic
import Scaffold.Pool
import Scaffold.Vector.Models

namespace Scaffold.Vector.Chroma

open Python

-- `_RECORD_METADATA`
def recordKey : String := "_vector_record"

section Sdk

structure Record where
  embedding : List PyFloat
  metadata : Items
  deriving DecidableEq

abbrev Store := String → Option Record

-- The answer to a read. A record without metadata has none.
structure Reply where
  ids : List String
  embeddings : List (List PyFloat)
  metadatas : List (Option Items)
  deriving DecidableEq

def records (store : Store) (order : List String) : List (String × Record) :=
  order.filterMap fun id => (store id).map (id, ·)

-- A read answers with the records that exist, in an order of its own.
def answer (store : Store) (order : List String) : Reply where
  ids := (records store order).map fun record => record.1
  embeddings := (records store order).map fun record => record.2.embedding
  metadatas := (records store order).map fun record =>
    if record.2.metadata = [] then none else some record.2.metadata

-- One field of a write: `None` deletes the key.
abbrev Patch := List (String × Option MetadataScalar)

def put (items : Items) (field : String × Option MetadataScalar) : Items :=
  match field.2 with
  | none => items.filter fun item => item.1 ≠ field.1
  | some value => (items.filter fun item => item.1 ≠ field.1) ++ [(field.1, value)]

def merge (old : Items) (patch : Patch) : Items := patch.foldl put old

structure Entry where
  id : String
  embedding : List PyFloat
  metadata : Patch

-- A write replaces the embedding and merges the metadata.
def write (store : Store) (entry : Entry) : Store :=
  Function.update store entry.id
    (some {
      embedding := entry.embedding
      metadata := merge (((store entry.id).map Record.metadata).getD []) entry.metadata })

def writeAll (store : Store) (entries : List Entry) : Store := entries.foldl write store

end Sdk

section Driver

def cleanChromaMetadata : Option Items → Items
  | none => []
  | some items => items.filter fun item => item.1 ≠ recordKey

-- The keys of the old metadata that the point does not have are deleted.
def replacement (existing : Items) (point : VectorPoint) : Patch :=
  ((existing.map Prod.fst).filter fun key => key ∉ point.metadata.map Prod.fst).map (fun key =>
    (key, none)) ++
    [(recordKey, some (.bool true))] ++ point.metadata.map fun item => (item.1, some item.2)

def replacementMetadatas (result : Reply) (points : List VectorPoint) : Except VectorError (List Patch) :=
  if result.ids.length ≠ result.metadatas.length then
    .error (.operation "Chroma 返回的 ID 与元数据不符合公共结构")
  else
    let existing := result.ids.zip (result.metadatas.map cleanChromaMetadata)
    .ok (points.map fun point => replacement ((existing.lookup point.id).getD []) point)

-- The constructor of a point checks what the store returned.
def checkedPoint (point : VectorPoint) : Except VectorError VectorPoint := do
  validatePoint point
  return point

def chromaPoints (result : Reply) : Except VectorError (List VectorPoint) :=
  if result.ids.length ≠ result.embeddings.length then
    .error (.operation "Chroma 返回的 ID 与向量数量不一致")
  else
    (result.ids.zip result.embeddings).zipIdx.mapM fun item => checkedPoint {
      id := item.1.1
      vector := item.1.2
      metadata := cleanChromaMetadata result.metadatas[item.2]?.join }

-- The points of the answer in the order of the request.
def inOrder (ids : List String) (points : List VectorPoint) : List VectorPoint :=
  ids.filterMap fun id => points.reverse.find? fun point => point.id = id

-- A point as the caller passes it: its metadata is a mapping that the caller may change.
structure PointArg where
  id : String
  vector : List PyFloat
  metadata : Nat
  deriving DecidableEq

def PointArg.read (heap : Nat → Items) (point : PointArg) : VectorPoint where
  id := point.id
  vector := point.vector
  metadata := heap point.metadata

inductive Operation where
  | upsert (collection : String) (points : List PointArg)
  | get (collection : String) (ids : List String)

-- What a call does after it has the collection.
inductive Job where
  | upsert (points : List VectorPoint)
  | get (ids : List String)

-- The await of a call. A call to the SDK runs in a thread and has an answer when the thread has
-- ended; a cancellation that arrives meanwhile is kept until then.
inductive Phase where
  | lock (collection : String) (points : List VectorPoint)
  | require (collection : String) (job : Job) (cancelled : Bool) (reply : Option Bool)
  | read (collection : String) (points : List VectorPoint) (cancelled : Bool) (reply : Option Reply)
  | write (collection : String) (points : List VectorPoint) (metadatas : List Patch) (cancelled done : Bool)
  | find (collection : String) (ids : List String) (cancelled : Bool) (reply : Option Reply)

inductive Outcome where
  | upserted
  | found (points : List VectorPoint)
  | raised (error : VectorError)
  | cancelled
  deriving DecidableEq

inductive Task where
  | idle
  | waiting (phase : Phase)
  | ended (outcome : Outcome)

inductive Act where
  | call (operation : Operation)
  | acquire
  | perform (order : List String)
  | deliver
  | cancel

-- An upsert that the store has executed.
structure Write (ι : Type) where
  task : ι
  collection : String
  points : List VectorPoint

-- `writes` are the executed upserts in their order.
structure Shared (ι : Type) where
  collections : String → Option Store
  heap : Nat → Items
  lock : Option ι := none
  writes : List (Write ι) := []

variable {ι : Type}

def notFound (name : String) : VectorError :=
  .collectionNotFound ("Chroma Collection " ++ quoted name ++ " 不存在")

-- A public method up to its first await. The metadata is copied here.
def start (s : Shared ι) : Operation → Task
  | .upsert collection args =>
      let points := args.map (PointArg.read s.heap)
      match validateCollectionName collection, validatePoints points with
      | .error error, _ => .ended (.raised error)
      | .ok (), .error error => .ended (.raised error)
      | .ok (), .ok () => if points = [] then .ended .upserted else .waiting (.lock collection points)
  | .get collection ids =>
      match validateCollectionName collection, validateIds ids with
      | .error error, _ => .ended (.raised error)
      | .ok (), .error error => .ended (.raised error)
      | .ok (), .ok () =>
          if ids = [] then .ended (.found []) else .waiting (.require collection (.get ids) false none)

def entries (points : List VectorPoint) (metadatas : List Patch) : List Entry :=
  List.zipWith (fun point metadata =>
    { id := point.id, embedding := point.vector, metadata }) points metadatas

-- The thread performs the call to the SDK.
def perform (i : ι) (s : Shared ι) (order : List String) : Phase → Option (Shared ι × Phase)
  | .require collection job cancelled none =>
      some (s, .require collection job cancelled (some (s.collections collection).isSome))
  | .read collection points cancelled none =>
      (s.collections collection).bind fun store =>
        if order.isPerm ((points.map VectorPoint.id).filter fun id => (store id).isSome) then
          some (s, .read collection points cancelled (some (answer store order)))
        else none
  | .write collection points metadatas cancelled false =>
      (s.collections collection).map fun store =>
        ({ s with
            collections := Function.update s.collections collection
              (some (writeAll store (entries points metadatas)))
            writes := s.writes ++ [⟨i, collection, points⟩] },
          .write collection points metadatas cancelled true)
  | .find collection ids cancelled none =>
      (s.collections collection).bind fun store =>
        if order.isPerm (ids.filter fun id => (store id).isSome) then
          some (s, .find collection ids cancelled (some (answer store order)))
        else none
  | _ => none

def release (s : Shared ι) (outcome : Outcome) : Shared ι × Task :=
  ({ s with lock := none }, .ended outcome)

-- The thread has ended and the call goes on, or ends with the cancellation it has kept.
def deliver (s : Shared ι) : Phase → Option (Shared ι × Task)
  | .require collection (.upsert points) cancelled (some found) =>
      some (if cancelled then release s .cancelled
        else if found then (s, .waiting (.read collection points false none))
        else release s (.raised (notFound collection)))
  | .require collection (.get ids) cancelled (some found) =>
      some (s, if cancelled then .ended .cancelled
        else if found then .waiting (.find collection ids false none)
        else .ended (.raised (notFound collection)))
  | .read collection points cancelled (some result) =>
      some (if cancelled then release s .cancelled
        else
          match replacementMetadatas result points with
          | .error error => release s (.raised error)
          | .ok metadatas => (s, .waiting (.write collection points metadatas false false)))
  | .write _ _ _ cancelled true => some (release s (if cancelled then .cancelled else .upserted))
  | .find _ ids cancelled (some result) =>
      some (s, if cancelled then .ended .cancelled
        else
          match chromaPoints result with
          | .error error => .ended (.raised error)
          | .ok points => .ended (.found (inOrder ids points)))
  | _ => none

-- A call that waits for the lock ends at once, a call that waits for a thread does not.
def cancel : Phase → Task
  | .lock _ _ => .ended .cancelled
  | .require collection job _ reply => .waiting (.require collection job true reply)
  | .read collection points _ reply => .waiting (.read collection points true reply)
  | .write collection points metadatas _ done => .waiting (.write collection points metadatas true done)
  | .find collection ids _ reply => .waiting (.find collection ids true reply)

def taskStep (i : ι) (s : Shared ι) : Task → Act → Option (Shared ι × Task)
  | .idle, .call operation => some (s, start s operation)
  | .waiting (.lock collection points), .acquire =>
      if s.lock.isNone then
        some ({ s with lock := some i }, .waiting (.require collection (.upsert points) false none))
      else none
  | .waiting phase, .perform order => (perform i s order phase).map fun next => (next.1, .waiting next.2)
  | .waiting phase, .deliver => deliver s phase
  | .waiting phase, .cancel => some (s, cancel phase)
  | _, _ => none

-- The caller changes one of its mappings.
structure Mutation where
  mapping : Nat
  items : Items

def mutate (s : Shared ι) (event : Mutation) : Option (Shared ι) :=
  some { s with heap := Function.update s.heap event.mapping event.items }

abbrev Client (ι : Type) := Pool ι (Shared ι) Task

def step [DecidableEq ι] : Client ι → (ι × Act) ⊕ Mutation → Option (Client ι) :=
  Pool.step taskStep mutate

def fresh (collections : String → Option Store) (heap : Nat → Items) : Client ι where
  shared := { collections, heap }
  loc := fun _ => .idle

end Driver

end Scaffold.Vector.Chroma
