import Scaffold.Python.JsonScalar

namespace Scaffold.Python

open Decimal

-- `str` of the values of `json.loads`.

def PyFloat.repr : PyFloat → List Char
  | .nan => "nan".toList
  | .infinite negative => signText negative ++ "inf".toList
  | x => x.text

mutual

-- How deep a value is nested.
def JsonValue.depth : JsonValue → Nat
  | .list items => itemsDepth items + 1
  | .dict items => fieldsDepth items + 1
  | _ => 0

def itemsDepth : List JsonValue → Nat
  | [] => 0
  | item :: rest => max item.depth (itemsDepth rest)

def fieldsDepth : List (Text × JsonValue) → Nat
  | [] => 0
  | (_, value) :: rest => max value.depth (fieldsDepth rest)

end

section Repr

-- `str.isprintable` on the characters after ASCII
variable (printable : Char → Bool)

-- A surrogate is not printable.
def reprPoint (quote : Char) (c : CodePoint) : List Char :=
  if isSurrogate c then ['\\', 'u'] ++ hexDigits 4 c.val else escape printable quote (.ofNat c.val)

def reprText (text : Text) : List Char :=
  quoteOf (charsOf text) :: text.flatMap (reprPoint printable (quoteOf (charsOf text))) ++ [quoteOf (charsOf text)]

def joined (texts : List (List Char)) : List Char := [',', ' '].intercalate texts

-- `repr` of a value that is nested no deeper than the limit; beyond it there is a `RecursionError`.
def reprValue : Nat → JsonValue → Option (List Char)
  | _, .null => some "None".toList
  | _, .bool true => some "True".toList
  | _, .bool false => some "False".toList
  | _, .int value => some (integerText value)
  | _, .float value => some value.repr
  | _, .str value => some (reprText printable value)
  | 0, .list _ | 0, .dict _ => none
  | limit + 1, .list items =>
      (items.mapM (reprValue limit)).map fun texts => '[' :: joined texts ++ [']']
  | limit + 1, .dict items =>
      (items.mapM fun item => (reprValue limit item.2).map fun text =>
        reprText printable item.1 ++ [':', ' '] ++ text).map
        fun texts => '\x7b' :: joined texts ++ ['\x7d']

end Repr

section Depth

theorem itemsDepth_le {items : List JsonValue} {limit : Nat} :
    itemsDepth items ≤ limit ↔ ∀ item ∈ items, item.depth ≤ limit := by
  induction items with
  | nil => simp [itemsDepth]
  | cons item items ih => simp [itemsDepth, ih]

theorem fieldsDepth_le {items : List (Text × JsonValue)} {limit : Nat} :
    fieldsDepth items ≤ limit ↔ ∀ item ∈ items, item.2.depth ≤ limit := by
  induction items with
  | nil => simp [fieldsDepth]
  | cons item items ih => simp [fieldsDepth, ih]

theorem mapM_isSome {α β : Type} {f : α → Option β} {items : List α} :
    (items.mapM f).isSome = true ↔ ∀ item ∈ items, (f item).isSome = true := by
  induction items with
  | nil => simp
  | cons item items ih =>
      rw [List.mapM_cons, List.forall_mem_cons, ← ih]
      cases f item <;> cases items.mapM f <;> simp

-- A value has a text exactly when it is not nested too deep.
theorem reprValue_isSome {printable : Char → Bool} {limit : Nat} {value : JsonValue} :
    (reprValue printable limit value).isSome = true ↔ value.depth ≤ limit := by
  induction limit generalizing value with
  | zero => rcases value with _ | (_ | _) | _ | _ | _ | _ | _ <;> simp [reprValue, JsonValue.depth]
  | succ limit ih =>
      rcases value with _ | (_ | _) | _ | _ | _ | items | items
      · simp [reprValue, JsonValue.depth]
      · simp [reprValue, JsonValue.depth]
      · simp [reprValue, JsonValue.depth]
      · simp [reprValue, JsonValue.depth]
      · simp [reprValue, JsonValue.depth]
      · simp [reprValue, JsonValue.depth]
      · rw [reprValue, Option.isSome_map, mapM_isSome, JsonValue.depth, Nat.add_le_add_iff_right,
          itemsDepth_le]
        exact forall_congr' fun item => imp_congr_right fun _ => ih
      · rw [reprValue, Option.isSome_map, mapM_isSome, JsonValue.depth, Nat.add_le_add_iff_right,
          fieldsDepth_le]
        refine forall_congr' fun item => imp_congr_right fun _ => ?_
        rw [Option.isSome_map]
        exact ih

end Depth

end Scaffold.Python
