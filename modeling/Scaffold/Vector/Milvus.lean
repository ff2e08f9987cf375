import Scaffold.Pool
import Scaffold.Vector.Models

namespace Scaffold.Vector.Milvus

open Python

-- `_METRICS` and `_METRICS_FROM_MILVUS`
def metricType : VectorMetric → String
  | .cosine => "COSINE"
  | .dotProduct => "IP"
  | .l2 => "L2"

def metricFromMilvus (text : String) : Option VectorMetric :=
  [.cosine, .dotProduct, .l2].find? fun metric => metricType metric = text

-- What the client reads of the answers of the server. A part that is missing or has another
-- type than the code asks for is `none`.
structure Field where
  name : Option String
  params : Option (Option Int)
  deriving DecidableEq, Repr

structure Description where
  fields : Option (List (Option Field))
  deriving DecidableEq, Repr

structure Hit where
  entity : Option Items
  id : Option String
  distance : Option PyFloat

def fieldDimension : Option Field → Option Int
  | some field => if field.name = some "vector" then field.params.join else none
  | none => none

def milvusDimension (description : Description) : Except VectorError Int :=
  match description.fields with
  | none => .error (.operation "Milvus Collection 描述缺少 fields")
  | some fields =>
      match fields.findSome? fieldDimension with
      | some dimension => .ok dimension
      | none => .error (.operation "Milvus Collection 缺少公共 vector 字段")

def reservedFields : List String := ["id", "vector"]

def milvusMatch (metric : VectorMetric) (hit : Hit) : Except VectorError VectorMatch :=
  match hit.entity, hit.id, hit.distance with
  | some entity, some id, some distance =>
      .ok {
        id
        score := if metric = .l2 then distance.neg else distance
        metadata := entity.filter fun item => item.1 ∉ reservedFields }
  | _, _, _ => .error (.operation "Milvus 返回了不符合公共结构的检索结果")

-- A collection on the server: its description and the metric type of its vector index.
structure Collection where
  description : Description
  metricType : String

abbrev Server := String → Option Collection

def Collection.metric (collection : Collection) : Option VectorMetric :=
  metricFromMilvus collection.metricType

def created (spec : VectorCollectionSpec) : Collection where
  description :=
    { fields := some [some ⟨some "id", some none⟩, some ⟨some "vector", some (some spec.dimension)⟩] }
  metricType := metricType spec.metric

-- How a backend call fails: the two classes of SDK errors that are translated, and all others.
inductive Failure where
  | connection
  | operation
  | other
  deriving DecidableEq, Repr

inductive Raised where
  | vector (error : VectorError)
  | other
  deriving DecidableEq, Repr

def Raised.isOperation : Raised → Bool
  | .vector error => error.isOperation
  | .other => false

def raiseMilvusError (isLocal : Bool) : Failure → Raised
  | .connection => .vector (.connection ((if isLocal then "Milvus Lite 客户端" else "远程 Milvus") ++ "不可用"))
  | .operation => .vector (.operation ((if isLocal then "Milvus Lite" else "远程 Milvus") ++ "操作失败"))
  | .other => .other

structure SearchArgs where
  collection : String
  vector : List PyFloat
  limit : Int
  filters : Option Items := none

inductive Operation where
  | create (spec : VectorCollectionSpec)
  | describe (name : String)
  | delete (name : String)
  | search (args : SearchArgs)

-- What a call does with the answer of `has_collection`. A description is either a call of its
-- own or the first part of a search.
inductive Check where
  | create (spec : VectorCollectionSpec)
  | createFailed (spec : VectorCollectionSpec) (error : Raised)
  | describe (caller : Option SearchArgs)
  | delete
  | deleteFailed (error : Raised)

-- The backend call that a task awaits, with the answer of the server if it has performed it.
-- The answer to a call that the server refuses is `false` or `none`.
inductive Phase where
  | hasCollection (name : String) (check : Check) (reply : Option Bool)
  | createCollection (spec : VectorCollectionSpec) (reply : Option Bool)
  | describeCollection (name : String) (caller : Option SearchArgs) (reply : Option (Option Description))
  | describeIndex (name : String) (description : Description) (caller : Option SearchArgs)
      (reply : Option (Option String))
  | dropCollection (name : String) (reply : Option Bool)
  | search (args : SearchArgs) (metric : VectorMetric) (reply : Option (Option (List (List Hit))))

inductive Outcome where
  | created
  | described (info : VectorCollectionInfo)
  | deleted
  | matches (found : List VectorMatch)
  | raised (error : Raised)
  | cancelled

inductive Task where
  | idle
  | waiting (phase : Phase)
  | ended (outcome : Outcome)

inductive Act where
  | call (operation : Operation)
  | perform (found : List (List Hit))
  | deliver
  | fail (failure : Failure)
  | cancel

structure Shared where
  server : Server
  metrics : String → Option VectorMetric

def Shared.remember (s : Shared) (name : String) (metric : VectorMetric) : Shared :=
  { s with metrics := Function.update s.metrics name (some metric) }

def Shared.forget (s : Shared) (name : String) : Shared :=
  { s with metrics := Function.update s.metrics name none }

def Task.raised (error : Raised) : Task := .ended (.raised error)

def notFound (name : String) : Raised :=
  .vector (.collectionNotFound ("Milvus Collection " ++ quoted name ++ " 不存在"))

def conflict (name : String) : Raised :=
  .vector (.collectionConflict ("Milvus Collection " ++ quoted name ++ " 已存在"))

-- `has_collection` up to its await
def hasCollection (name : String) (check : Check) : Task :=
  match validateCollectionName name with
  | .error error => .raised (.vector error)
  | .ok () => .waiting (.hasCollection name check none)

def validateSearch (args : SearchArgs) : Except VectorError Unit := do
  validateCollectionName args.collection
  validateVector args.vector
  validateLimit args.limit
  validateFilters args.filters

-- A public method up to its first await.
def start (s : Shared) : Operation → Task
  | .create spec => hasCollection spec.name (.create spec)
  | .describe name => hasCollection name (.describe none)
  | .delete name => hasCollection name .delete
  | .search args =>
      match validateSearch args with
      | .error error => .raised (.vector error)
      | .ok () =>
          match s.metrics args.collection with
          | some metric => .waiting (.search args metric none)
          | none => hasCollection args.collection (.describe (some args))

def checked (s : Shared) (name : String) : Check → Bool → Shared × Task
  | .create spec, found =>
      (s, if found then .raised (conflict spec.name) else .waiting (.createCollection spec none))
  | .createFailed spec error, found => (s, .raised (if found then conflict spec.name else error))
  | .describe caller, found =>
      (s, if found then .waiting (.describeCollection name caller none) else .raised (notFound name))
  | .delete, found => (s, if found then .waiting (.dropCollection name none) else .raised (notFound name))
  | .deleteFailed error, found =>
      if found then (s, .raised error) else (s.forget name, .raised (notFound name))

def unsupported (name : String) : Raised :=
  .vector (.operation ("Milvus Collection " ++ quoted name ++ " 使用了不支持的距离算法"))

-- `describe_collection` after its last await. A search goes on with the metric.
def described (s : Shared) (name : String) (description : Description) (caller : Option SearchArgs)
    (text : String) : Shared × Task :=
  match milvusDimension description with
  | .error error => (s, .raised (.vector error))
  | .ok dimension =>
      match metricFromMilvus text with
      | none => (s, .raised (unsupported name))
      | some metric =>
          (s.remember name metric,
            match caller with
            | none => .ended (.described { name, dimension, metric })
            | some args => .waiting (.search args metric none))

def searched (metric : VectorMetric) (result : List (List Hit)) : Task :=
  match (result.headD []).mapM (milvusMatch metric) with
  | .error error => .raised (.vector error)
  | .ok found => .ended (.matches found)

-- The server performs a call; `found` is what it finds for a query.
def perform (server : Server) (found : List (List Hit)) : Phase → Option (Server × Phase)
  | .hasCollection name check none => some (server, .hasCollection name check (some (server name).isSome))
  | .createCollection spec none =>
      if (server spec.name).isSome then some (server, .createCollection spec (some false))
      else some (Function.update server spec.name (some (created spec)), .createCollection spec (some true))
  | .describeCollection name caller none =>
      some (server, .describeCollection name caller (some ((server name).map Collection.description)))
  | .describeIndex name description caller none =>
      some (server, .describeIndex name description caller (some ((server name).map Collection.metricType)))
  | .dropCollection name none =>
      some (Function.update server name none, .dropCollection name (some (server name).isSome))
  | .search args metric none =>
      some (server, .search args metric (some ((server args.collection).map fun _ => found)))
  | _ => none

-- The call returns the answer of the server.
def deliver (s : Shared) : Phase → Option (Shared × Task)
  | .hasCollection name check (some found) => some (checked s name check found)
  | .createCollection spec (some true) => some (s.remember spec.name spec.metric, .ended .created)
  | .describeCollection name caller (some (some description)) =>
      some (s, .waiting (.describeIndex name description caller none))
  | .describeIndex name description caller (some (some text)) =>
      some (described s name description caller text)
  | .dropCollection name (some true) => some (s.forget name, .ended .deleted)
  | .search _ metric (some (some result)) => some (s, searched metric result)
  | _ => none

-- The call raises, whatever the server did.
def failed (error : Raised) : Phase → Task
  | .createCollection spec _ =>
      if error.isOperation then hasCollection spec.name (.createFailed spec error) else .raised error
  | .dropCollection name _ =>
      if error.isOperation then hasCollection name (.deleteFailed error) else .raised error
  | _ => .raised error

-- One call of the client from one await to the next.
def taskStep (isLocal : Bool) {ι : Type} (_ : ι) (s : Shared) : Task → Act → Option (Shared × Task)
  | .idle, .call operation => some (s, start s operation)
  | .waiting phase, .perform found =>
      (perform s.server found phase).map fun next => ({ s with server := next.1 }, .waiting next.2)
  | .waiting phase, .deliver => deliver s phase
  | .waiting phase, .fail failure => some (s, failed (raiseMilvusError isLocal failure) phase)
  | .waiting _, .cancel => some (s, .ended .cancelled)
  | _, _ => none

abbrev Client (ι : Type) := Pool ι Shared Task

-- Only the calls of the client change the server.
def step (isLocal : Bool) {ι : Type} [DecidableEq ι] : Client ι → (ι × Act) ⊕ Empty → Option (Client ι) :=
  Pool.step (taskStep isLocal) fun _ event => event.elim

def fresh {ι : Type} (server : Server) : Client ι where
  shared := { server, metrics := fun _ => none }
  loc := fun _ => .idle

end Scaffold.Vector.Milvus
