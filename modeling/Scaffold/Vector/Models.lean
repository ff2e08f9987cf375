import Scaffold.Python.Float
import Scaffold.Python.Repr

namespace Scaffold.Vector

open Python

inductive VectorError where
  | configuration (text : String)
  | connection (text : String)
  | operation (text : String)
  | collectionNotFound (text : String)
  | collectionConflict (text : String)
  deriving DecidableEq, Repr

-- `except VectorOperationError` also takes the two errors derived from it.
def VectorError.isOperation : VectorError → Bool
  | .operation _ | .collectionNotFound _ | .collectionConflict _ => true
  | _ => false

inductive VectorMetric where
  | cosine
  | dotProduct
  | l2
  deriving DecidableEq, Repr

inductive MetadataScalar where
  | str (value : String)
  | int (value : Int)
  | float (value : PyFloat)
  | bool (value : Bool)
  deriving DecidableEq

-- The items of a mapping in their order.
abbrev Items := List (String × MetadataScalar)

-- What two mappings are compared by. A later item replaces an earlier one with the same key.
def Items.dict (items : Items) (key : String) : Option MetadataScalar := items.reverse.lookup key

structure VectorPoint where
  id : String
  vector : List PyFloat
  metadata : Items
  deriving DecidableEq

structure VectorMatch where
  id : String
  score : PyFloat
  metadata : Items
  deriving DecidableEq

structure VectorCollectionInfo where
  name : String
  dimension : Int
  metric : VectorMetric
  deriving DecidableEq, Repr

-- The texts quote names and keys that are ASCII.
def quoted (name : String) : String := repr (fun _ => true) name

def isNameEnd (c : Char) : Bool := c.isLower || c.isDigit

-- `^[a-z][a-z0-9_]*[a-z0-9]$`
def matchesCollectionName : List Char → Bool
  | first :: next :: rest =>
      first.isLower && (next :: rest).dropLast.all (fun c => isNameEnd c || c = '_') &&
        isNameEnd ((next :: rest).getLast (by simp))
  | _ => false

def validateCollectionName (name : String) : Except VectorError Unit :=
  if 3 ≤ name.length ∧ name.length ≤ 63 ∧ matchesCollectionName name.toList then .ok ()
  else .error (.configuration
    "Collection 名称必须为 3 到 63 位小写字母、数字或下划线，以字母开头且以字母或数字结尾")

-- The specification of a collection; its constructor refuses other values.
structure VectorCollectionSpec where
  name : String
  dimension : Nat
  metric : VectorMetric := .cosine
  valid : validateCollectionName name = .ok ()
  bounds : 1 ≤ dimension ∧ dimension ≤ 4096

-- `^[A-Za-z_][A-Za-z0-9_]*$`
def matchesMetadataKey : List Char → Bool
  | first :: rest => (first.isAlpha || first = '_') && rest.all (fun c => c.isAlphanum || c = '_')
  | [] => false

def reservedMetadataKeys :
    List String := ["id", "vector", "_vector_dimension", "_vector_metric", "_vector_record"]

def validateItem (key : String) (value : MetadataScalar) : Except VectorError Unit :=
  if 128 < key.length ∨ ¬ matchesMetadataKey key.toList then
    .error (.configuration "元数据字段名必须为 1 到 128 位字母、数字或下划线，且不能以数字开头")
  else if key ∈ reservedMetadataKeys then
    .error (.configuration ("元数据字段名 " ++ quoted key ++ " 为向量接口保留字段"))
  else
    match value with
    | .float value =>
        if value.isfinite then .ok ()
        else .error (.configuration ("元数据字段 " ++ quoted key ++ " 只能使用有限标量值"))
    | .int value =>
        if -2 ^ 63 ≤ value ∧ value ≤ 2 ^ 63 - 1 then .ok ()
        else .error (.configuration ("元数据字段 " ++ quoted key ++ " 的整数必须在有符号 64 位范围内"))
    | _ => .ok ()

def validateMetadata (items : Items) : Except VectorError Unit :=
  items.forM fun item => validateItem item.1 item.2

def validateFilters : Option Items → Except VectorError Unit
  | none => .ok ()
  | some items => validateMetadata items

def validateLimit (limit : Int) : Except VectorError Unit :=
  if 1 ≤ limit ∧ limit ≤ 10000 then .ok ()
  else .error (.configuration "向量检索 limit 必须在 1 到 10000 之间")

def validateVector (vector : List PyFloat) : Except VectorError Unit :=
  if vector = [] then .error (.configuration "向量不能为空")
  else if ¬ vector.all PyFloat.isfinite then .error (.configuration "向量只能包含有限数值")
  else .ok ()

def validatePointId (id : String) : Except VectorError Unit :=
  if id = "" ∨ 512 < id.utf8ByteSize then
    .error (.configuration "向量 ID 的 UTF-8 长度必须在 1 到 512 字节之间")
  else .ok ()

def validateUniqueIds (ids : List String) : Except VectorError Unit :=
  if ids.Nodup then .ok ()
  else .error (.configuration "同一次向量批量操作中的 ID 不能重复")

-- The checks of the constructor of a point, which a batch repeats.
def validatePoint (point : VectorPoint) : Except VectorError Unit := do
  validatePointId point.id
  validateVector point.vector
  validateMetadata point.metadata

def validatePoints (points : List VectorPoint) : Except VectorError Unit := do
  points.forM validatePoint
  validateUniqueIds (points.map VectorPoint.id)

def validateIds (ids : List String) : Except VectorError Unit := do
  ids.forM validatePointId
  validateUniqueIds ids

end Scaffold.Vector
