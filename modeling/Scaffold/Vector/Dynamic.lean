import Scaffold.Python.Text
import Scaffold.Raising
import Scaffold.Vector.Models

namespace Scaffold.Vector.Dynamic

open Python

-- A value of a built-in type of Python, as a caller may pass it.
inductive PyValue where
  | none
  | bool (value : Bool)
  | int (value : Int)
  | float (value : PyFloat)
  | str (value : Text)
  | bytes (value : List UInt8)
  | tuple (items : List PyValue)
  | list (items : List PyValue)
  | dict (items : List (PyValue × PyValue))

-- The exceptions of the validation.
inductive ValidationError where
  | configuration (text : String)
  | unicodeEncode
  | overflow
  deriving DecidableEq, Repr

def ValidationError.isConfiguration : ValidationError → Bool
  | .configuration _ => true
  | _ => false

-- An integer that `float` does not refuse: it is rounded to a finite double.
def fitsFloat (value : Int) : Bool :=
  value.natAbs < 2 ^ 1024 - 2 ^ 970

def validatePointId : PyValue → Except ValidationError Unit
  | .str id =>
      if id = [] then .error (.configuration "向量 ID 的 UTF-8 长度必须在 1 到 512 字节之间")
      else
        match encodeUtf8 id with
        | none => .error .unicodeEncode
        | some bytes =>
            if 512 < bytes.length then .error (.configuration "向量 ID 的 UTF-8 长度必须在 1 到 512 字节之间")
            else .ok ()
  | _ => .error (.configuration "向量 ID 的 UTF-8 长度必须在 1 到 512 字节之间")

-- One component of a vector: `isfinite` converts an integer to a float first.
def validateComponent : PyValue → Except ValidationError Unit
  | .int value => if fitsFloat value then .ok () else .error .overflow
  | .float value => if value.isfinite then .ok () else .error (.configuration "向量只能包含有限数值")
  | _ => .error (.configuration "向量只能包含有限数值")

def validateVector : PyValue → Except ValidationError Unit
  | .tuple items =>
      if items.isEmpty then .error (.configuration "向量不能为空") else items.forM validateComponent
  | _ => .error (.configuration "向量不能为空")

def isKeyStart (c : CodePoint) : Bool :=
  (65 ≤ c.val ∧ c.val ≤ 90) ∨ (97 ≤ c.val ∧ c.val ≤ 122) ∨ c.val = 95

def isKeyChar (c : CodePoint) : Bool :=
  isKeyStart c ∨ (48 ≤ c.val ∧ c.val ≤ 57)

-- `^[A-Za-z_][A-Za-z0-9_]*$`
def matchesKey : Text → Bool
  | [] => false
  | first :: rest => isKeyStart first && rest.all isKeyChar

-- A key in a text; it is ASCII when its pattern has been checked.
def keyText (key : Text) : String :=
  quoted (.ofList (key.map fun c => .ofNat c.val))

def validateValue (key : Text) : PyValue → Except ValidationError Unit
  | .str _ => .ok ()
  | .bool _ => .ok ()
  | .float value =>
      if value.isfinite then .ok ()
      else .error (.configuration ("元数据字段 " ++ keyText key ++ " 只能使用有限标量值"))
  | .int value =>
      if -2 ^ 63 ≤ value ∧ value ≤ 2 ^ 63 - 1 then .ok ()
      else .error (.configuration ("元数据字段 " ++ keyText key ++ " 的整数必须在有符号 64 位范围内"))
  | _ => .error (.configuration ("元数据字段 " ++ keyText key ++ " 只能使用有限标量值"))

def validateItem : PyValue × PyValue → Except ValidationError Unit
  | (.str key, value) =>
      if 128 < key.length ∨ ¬ matchesKey key then
        .error (.configuration "元数据字段名必须为 1 到 128 位字母、数字或下划线，且不能以数字开头")
      else if key ∈ reservedMetadataKeys.map textOf then
        .error (.configuration ("元数据字段名 " ++ keyText key ++ " 为向量接口保留字段"))
      else validateValue key value
  | _ => .error (.configuration "元数据字段名必须为 1 到 128 位字母、数字或下划线，且不能以数字开头")

def validateMetadata : PyValue → Except ValidationError Unit
  | .dict items => items.forM validateItem
  | _ => .error (.configuration "元数据必须是 Mapping")

-- The fields of a `VectorPoint`; its constructor runs the check below.
structure Point where
  id : PyValue
  vector : PyValue
  metadata : PyValue

def validatePoint (point : Point) : Except ValidationError Unit := do
  validatePointId point.id
  validateVector point.vector
  validateMetadata point.metadata

-- The ids of a batch are strings when they are compared.
def idText : PyValue → Option Text
  | .str id => some id
  | _ => none

def validateUniqueIds (ids : List PyValue) : Except ValidationError Unit :=
  if (ids.filterMap idText).Nodup then .ok ()
  else .error (.configuration "同一次向量批量操作中的 ID 不能重复")

-- An item of a batch: an object of the class, or another value.
abbrev BatchItem := Point ⊕ PyValue

def validateBatchItem : BatchItem → Except ValidationError Unit
  | .inl point => validatePoint point
  | .inr _ => .error (.configuration "批量向量只能包含 VectorPoint")

def itemId : BatchItem → Option PyValue
  | .inl point => some point.id
  | .inr _ => none

-- `points` is none when the argument is no tuple.
def validatePoints : Option (List BatchItem) → Except ValidationError Unit
  | none => .error (.configuration "批量向量必须使用 tuple")
  | some items => do
      items.forM validateBatchItem
      validateUniqueIds (items.filterMap itemId)

def validateIds : PyValue → Except ValidationError Unit
  | .tuple ids => do
      ids.forM validatePointId
      validateUniqueIds ids
  | _ => .error (.configuration "批量向量 ID 必须使用 tuple")

def validateQueryVector (vector : PyValue) : Except ValidationError Unit :=
  validateVector vector

-- What the checks are for.

-- A string of 1 to 512 bytes.
def ValidId (id : PyValue) : Prop :=
  ∃ text bytes, id = .str text ∧ encodeUtf8 text = some bytes ∧ 1 ≤ bytes.length ∧ bytes.length ≤ 512

-- A number that is, or is rounded to, a finite float.
def ValidComponent (value : PyValue) : Prop :=
  (∃ n, value = .int n ∧ fitsFloat n = true) ∨ ∃ x, value = .float x ∧ x.isfinite = true

def ValidVector (vector : PyValue) : Prop :=
  ∃ items, vector = .tuple items ∧ items ≠ [] ∧ ∀ value ∈ items, ValidComponent value

-- [A-Za-z_][A-Za-z0-9_]{0,127}, and no reserved name.
def ValidKey (key : PyValue) : Prop :=
  ∃ first rest, key = .str (first :: rest) ∧ isKeyStart first = true ∧ (∀ c ∈ rest, isKeyChar c = true) ∧
    rest.length ≤ 127 ∧ first :: rest ∉ reservedMetadataKeys.map textOf

def ValidScalar (value : PyValue) : Prop :=
  (∃ text, value = .str text) ∨ (∃ b, value = .bool b) ∨ (∃ x, value = .float x ∧ x.isfinite = true) ∨
    ∃ n : Int, value = .int n ∧ -2 ^ 63 ≤ n ∧ n ≤ 2 ^ 63 - 1

def ValidMetadata (metadata : PyValue) : Prop :=
  ∃ items, metadata = .dict items ∧ ∀ item ∈ items, ValidKey item.1 ∧ ValidScalar item.2

-- The accepted points, batches and tuples of ids.
structure ValidPoint (point : Point) : Prop where
  id : ValidId point.id
  vector : ValidVector point.vector
  metadata : ValidMetadata point.metadata

def ValidItem (item : BatchItem) : Prop :=
  ∃ point, item = .inl point ∧ ValidPoint point

def ValidBatch (points : Option (List BatchItem)) : Prop :=
  ∃ items, points = some items ∧ (∀ item ∈ items, ValidItem item) ∧
    (items.filterMap itemId).Pairwise (· ≠ ·)

def ValidIds (ids : PyValue) : Prop :=
  ∃ items, ids = .tuple items ∧ (∀ id ∈ items, ValidId id) ∧ items.Pairwise (· ≠ ·)

-- The two kinds of values that the library functions under the checks refuse themselves.

def SurrogateId (id : PyValue) : Prop :=
  ∃ text, id = .str text ∧ ∃ c ∈ text, isSurrogate c = true

def OversizedComponent (value : PyValue) : Prop :=
  ∃ n, value = .int n ∧ fitsFloat n = false

-- A list in which the first item that is not in order is one of a kind.
def FirstFault {α : Type} (valid fault : α → Prop) (items : List α) : Prop :=
  ∃ before x after, items = before ++ x :: after ∧ (∀ y ∈ before, valid y) ∧ fault x

def OversizedVector (vector : PyValue) : Prop :=
  ∃ items, vector = .tuple items ∧ FirstFault ValidComponent OversizedComponent items

def FaultyPoint (point : Point) : Prop :=
  SurrogateId point.id ∨ ValidId point.id ∧ OversizedVector point.vector

def FaultyItem (item : BatchItem) : Prop :=
  ∃ point, item = .inl point ∧ FaultyPoint point

def FaultyBatch (points : Option (List BatchItem)) : Prop :=
  ∃ items, points = some items ∧ FirstFault ValidItem FaultyItem items

def FaultyIds (ids : PyValue) : Prop :=
  ∃ items, ids = .tuple items ∧ FirstFault ValidId SurrogateId items

-- What is said of a check: it returns for the valid values and raises the one error for the others.
def Portable (result : Except ValidationError Unit) (valid : Prop) : Prop :=
  (∀ error, result = .error error → error.isConfiguration = true) ∧ (result = .ok () ↔ valid)

end Scaffold.Vector.Dynamic
