import Scaffold.Python.Json
import Scaffold.Python.JsonNumber
import Scaffold.Python.Text

namespace Scaffold.Python

open Decimal

-- The values of `json.loads`. The keys of an object are strings, in their order.
inductive JsonValue where
  | null
  | bool (value : Bool)
  | int (value : Int)
  | float (value : PyFloat)
  | str (value : Text)
  | list (items : List JsonValue)
  | dict (items : List (Text × JsonValue))

def pointsOf (text : List Char) : Text := text.map codePoint

-- The escapes of `json.dumps` with `ensure_ascii=False`.
def escapePoint (c : CodePoint) : Text :=
  if c.val < 128 then pointsOf (jsonEscape (.ofNat c.val)) else [c]

def dumpsText (text : Text) : Text :=
  codePoint '"' :: text.flatMap escapePoint ++ [codePoint '"']

-- `json.dumps` with `ensure_ascii=False` and separators of one's own.
section Dumps

variable (itemSeparator keySeparator : Text)

mutual

def dumps : JsonValue → Text
  | .null => textOf "null"
  | .bool true => textOf "true"
  | .bool false => textOf "false"
  | .int value => pointsOf (integerText value)
  | .float value => pointsOf value.text
  | .str value => dumpsText value
  | .list items => codePoint '[' :: dumpsItems items ++ [codePoint ']']
  | .dict items => codePoint '\x7b' :: dumpsFields items ++ [codePoint '\x7d']

def dumpsItems : List JsonValue → Text
  | [] => []
  | [item] => dumps item
  | item :: rest => dumps item ++ itemSeparator ++ dumpsItems rest

def dumpsFields : List (Text × JsonValue) → Text
  | [] => []
  | [(key, value)] => dumpsText key ++ keySeparator ++ dumps value
  | (key, value) :: rest =>
      dumpsText key ++ keySeparator ++ dumps value ++ itemSeparator ++ dumpsFields rest

end

end Dumps

-- Texts without lone surrogates.

def plainText (text : Text) : Bool := text.all fun c => !isSurrogate c

mutual

def JsonValue.plain : JsonValue → Bool
  | .str value => plainText value
  | .list items => plainItems items
  | .dict items => plainFields items
  | _ => true

def plainItems : List JsonValue → Bool
  | [] => true
  | item :: rest => item.plain && plainItems rest

def plainFields : List (Text × JsonValue) → Bool
  | [] => true
  | (key, value) :: rest => plainText key && value.plain && plainFields rest

end

section Plain

theorem plainText_iff {text : Text} : plainText text = true ↔ ∀ c ∈ text, isSurrogate c = false := by
  simp [plainText]

theorem plainText_append {a b : Text} (ha : plainText a = true) (hb : plainText b = true) :
    plainText (a ++ b) = true := by
  simp only [plainText, List.all_append, Bool.and_eq_true] at ha hb ⊢
  exact ⟨ha, hb⟩

-- A character is no surrogate.
theorem plainText_pointsOf (text : List Char) : plainText (pointsOf text) = true := by
  refine plainText_iff.mpr fun d hd => ?_
  obtain ⟨c, -, rfl⟩ := List.mem_map.mp hd
  refine decide_eq_false ?_
  have hvalid := c.valid
  rintro ⟨hlow, hhigh⟩
  have hvalue : c.toNat = c.val.toNat := rfl
  simp only [codePoint] at hlow hhigh
  rcases hvalid with h | ⟨h, -⟩ <;> omega

theorem plainText_dumpsText {text : Text} (h : plainText text = true) :
    plainText (dumpsText text) = true := by
  have hpoint : ∀ c ∈ text, plainText (escapePoint c) = true := by
    intro c hc
    unfold escapePoint
    split_ifs
    · exact plainText_pointsOf _
    · exact plainText_iff.mpr fun d hd => List.mem_singleton.mp hd ▸ plainText_iff.mp h c hc
  have hinside : plainText (text.flatMap escapePoint) = true := by
    refine plainText_iff.mpr fun d hd => ?_
    obtain ⟨c, hc, hd⟩ := List.mem_flatMap.mp hd
    exact plainText_iff.mp (hpoint c hc) d hd
  exact plainText_append (a := codePoint '"' :: _)
    (plainText_append (a := [codePoint '"']) (plainText_pointsOf ['"'])
    hinside) (plainText_pointsOf ['"'])

variable {itemSeparator keySeparator : Text}

mutual

theorem plainText_dumps (hitem : plainText itemSeparator = true) (hkey : plainText keySeparator = true) :
    ∀ {value : JsonValue}, value.plain = true → plainText (dumps itemSeparator keySeparator value) = true
  | .null, _ => plainText_pointsOf "null".toList
  | .bool true, _ => plainText_pointsOf "true".toList
  | .bool false, _ => plainText_pointsOf "false".toList
  | .int _, _ => plainText_pointsOf _
  | .float _, _ => plainText_pointsOf _
  | .str _, h => plainText_dumpsText h
  | .list items, h => by
      have hitems := plainText_dumpsItems hitem hkey h
      rw [dumps]
      exact plainText_append (plainText_append (a := [codePoint '[']) (plainText_pointsOf ['[']) hitems)
        (plainText_pointsOf [']'])
  | .dict items, h => by
      have hitems := plainText_dumpsFields hitem hkey h
      rw [dumps]
      exact plainText_append (plainText_append (a := [codePoint '\x7b'])
        (plainText_pointsOf ['\x7b']) hitems)
        (plainText_pointsOf ['\x7d'])

theorem plainText_dumpsItems (hitem : plainText itemSeparator = true)
    (hkey : plainText keySeparator = true) :
    ∀ {items : List JsonValue}, plainItems items = true →
    plainText (dumpsItems itemSeparator keySeparator items) = true
  | [], _ => rfl
  | [item], h => plainText_dumps hitem hkey (by simpa [plainItems] using h)
  | item :: next :: rest, h => by
      rw [plainItems, Bool.and_eq_true] at h
      have htail := plainText_dumpsItems hitem hkey h.2
      exact plainText_append (plainText_append (plainText_dumps hitem hkey h.1) hitem) htail

theorem plainText_dumpsFields (hitem : plainText itemSeparator = true)
    (hkey : plainText keySeparator = true) :
    ∀ {items : List (Text × JsonValue)}, plainFields items = true →
    plainText (dumpsFields itemSeparator keySeparator items) = true
  | [], _ => rfl
  | [(key, value)], h => by
      obtain ⟨hname, hvalue⟩ := (by simpa [plainFields] using h : plainText key = true ∧ value.plain = true)
      exact plainText_append (plainText_append (plainText_dumpsText hname) hkey)
        (plainText_dumps hitem hkey hvalue)
  | (key, value) :: next :: rest, h => by
      rw [plainFields, Bool.and_eq_true, Bool.and_eq_true] at h
      have htail := plainText_dumpsFields hitem hkey h.2
      have hfield := plainText_append (plainText_append (plainText_dumpsText h.1.1) hkey)
        (plainText_dumps hitem hkey h.1.2)
      exact plainText_append (plainText_append hfield hitem) htail

end

end Plain

end Scaffold.Python
