import Scaffold.Python.JsonValue

namespace Scaffold.Python

-- The scalars of JSON as they are read.

def shortEscapes : List (Char × Char) :=
  [('"', '"'), ('\\', '\\'), ('/', '/'), ('b', .ofNat 8), ('f', .ofNat 12), ('n', '\n'),
    ('r', '\r'), ('t', '\t')]

def shortEscape (c : CodePoint) : Option CodePoint :=
  (shortEscapes.find? fun escape => codePoint escape.1 = c).map fun escape => codePoint escape.2

def hexPoint (c : CodePoint) : Option Nat :=
  if 48 ≤ c.val ∧ c.val ≤ 57 then some (c.val - 48)
  else if 65 ≤ c.val ∧ c.val ≤ 70 then some (c.val - 55)
  else if 97 ≤ c.val ∧ c.val ≤ 102 then some (c.val - 87)
  else none

-- Where a scan of a string stands: between two characters, behind a backslash, or within the
-- digits of a Unicode escape.
inductive Scan where
  | plain
  | escape
  | hex (left value : Nat)

-- The characters up to the closing quotation mark, with a mark on the Unicode escapes, and the rest.
def scanString : Scan → Text → Option (List (CodePoint × Bool) × Text)
  | _, [] => none
  | .plain, c :: rest =>
      if c = codePoint '"' then some ([], rest)
      else if c = codePoint '\\' then scanString .escape rest
      else if c.val < 32 then none
      else (scanString .plain rest).map fun found => ((c, false) :: found.1, found.2)
  | .escape, c :: rest =>
      if c = codePoint 'u' then scanString (.hex 4 0) rest
      else (shortEscape c).bind fun d => (scanString .plain rest).map fun found =>
        ((d, false) :: found.1, found.2)
  | .hex left value, c :: rest =>
      (hexPoint c).bind fun digit =>
        if left = 1 then
          (scanString .plain rest).map fun found =>
            ((Fin.ofNat 1114112 (value * 16 + digit), true) :: found.1, found.2)
        else scanString (.hex (left - 1) (value * 16 + digit)) rest

def isHigh (c : CodePoint) : Bool := 55296 ≤ c.val ∧ c.val < 56320

def isLow (c : CodePoint) : Bool := 56320 ≤ c.val ∧ c.val < 57344

-- Two escapes that are a high and a low surrogate stand for one code point.
def joinUnits : List (CodePoint × Bool) → Text
  | [] => []
  | [(c, _)] => [c]
  | (c, escaped) :: (d, escaped') :: rest =>
      if escaped ∧ escaped' ∧ isHigh c ∧ isLow d then
        Fin.ofNat 1114112 (65536 + (c.val - 55296) * 1024 + (d.val - 56320)) :: joinUnits rest
      else c :: joinUnits ((d, escaped') :: rest)

-- The characters of a text. A surrogate, which is none, becomes U+0000.
def charsOf (text : Text) : List Char := text.map fun c => .ofNat c.val

def readString (text : Text) : Option JsonValue :=
  match scanString .plain text with
  | some (units, []) => some (.str (joinUnits units))
  | _ => none

def numberValue : Int ⊕ PyFloat → JsonValue
  | .inl n => .int n
  | .inr x => .float x

-- A text that is a scalar of JSON, and its value.
def readScalar (text : Text) : Option JsonValue :=
  if text.head? = some (codePoint '"') then readString text.tail
  else if text = textOf "null" then some .null
  else if text = textOf "true" then some (.bool true)
  else if text = textOf "false" then some (.bool false)
  else (readNumber (charsOf text)).map numberValue

section Strings

-- What follows the closing quotation mark does not change what is read before it.
theorem scanString_append {state : Scan} {text rest tail : Text} {units : List (CodePoint × Bool)}
    (h : scanString state text = some (units, rest)) :
      scanString state (text ++ tail) = some (units, rest ++ tail) := by
  induction text generalizing state units with
  | nil => cases state <;> cases h
  | cons c text ih =>
      have hmap : ∀ {found : Option (List (CodePoint × Bool) × Text)} {unit : CodePoint × Bool},
          found = scanString .plain text →
          found.map (fun found => (unit :: found.1, found.2)) = some (units, rest) →
          (scanString .plain (text ++ tail)).map (fun found => (unit :: found.1, found.2)) =
            some (units, rest ++ tail) := by
        rintro _ unit rfl hfound
        obtain ⟨⟨units', rest'⟩, hrest, heq⟩ := Option.map_eq_some_iff.mp hfound
        obtain ⟨rfl, rfl⟩ := Prod.mk.inj heq
        rw [ih hrest, Option.map_some]
      cases state with
      | plain =>
          rw [scanString] at h
          rw [List.cons_append, scanString]
          split_ifs at h ⊢ with hquote hslash hcontrol
          · obtain ⟨rfl, rfl⟩ := Prod.mk.inj (Option.some.inj h)
            rfl
          · exact ih h
          · exact hmap rfl h
      | escape =>
          rw [scanString] at h
          rw [List.cons_append, scanString]
          split_ifs at h ⊢ with hhex
          · exact ih h
          · obtain ⟨d, hd, hrest⟩ := Option.bind_eq_some_iff.mp h
            rw [hd, Option.bind_some]
            exact hmap rfl hrest
      | hex left value =>
          rw [scanString] at h
          rw [List.cons_append, scanString]
          obtain ⟨digit, hdigit, hrest⟩ := Option.bind_eq_some_iff.mp h
          rw [hdigit, Option.bind_some]
          split_ifs at hrest ⊢ with hlast
          · exact hmap rfl hrest
          · exact ih hrest

-- A character in its escape is read as that character.
theorem scanString_escapePoint (c : CodePoint) (rest : Text) : ∃ escaped, (escaped = true → c.val < 32) ∧
    scanString .plain (escapePoint c ++ rest) =
      (scanString .plain rest).map fun found => ((c, escaped) :: found.1, found.2) := by
  have hplain : c ≠ codePoint '"' → c ≠ codePoint '\\' → ¬ c.val < 32 → scanString .plain ([c] ++ rest) =
      (scanString .plain rest).map fun found => ((c, false) :: found.1, found.2) := by
    intro hquote hslash hcontrol
    rw [List.singleton_append, scanString, if_neg hquote, if_neg hslash, if_neg hcontrol]
  unfold escapePoint
  split_ifs with hascii
  · by_cases hcontrol : c.val < 32
    · obtain ⟨n, hn⟩ := c
      dsimp only at hcontrol hascii ⊢
      interval_cases n <;> exact ⟨_, fun _ => by decide, rfl⟩
    · by_cases hquote : c = codePoint '"'
      · subst hquote
        exact ⟨false, nofun, rfl⟩
      · by_cases hslash : c = codePoint '\\'
        · subst hslash
          exact ⟨false, nofun, rfl⟩
        · refine ⟨false, nofun, ?_⟩
          have hescape : pointsOf (jsonEscape (.ofNat c.val)) = [c] := by
            obtain ⟨n, hn⟩ := c
            dsimp only at hcontrol hascii hquote hslash ⊢
            interval_cases n <;> first
              | rfl
              | exact absurd rfl hquote
              | exact absurd rfl hslash
          rw [hescape]
          exact hplain hquote hslash hcontrol
  · have hlarge : ∀ d : Char, d.toNat < 128 → c ≠ codePoint d := by
      rintro d hd rfl
      exact hascii hd
    exact ⟨false, nofun, hplain (hlarge '"' (by decide)) (hlarge '\\' (by decide)) (by omega)⟩

theorem joinUnits_cons {c : CodePoint} {escaped : Bool} (h : escaped = true → c.val < 32)
    (units : List (CodePoint × Bool)) : joinUnits ((c, escaped) :: units) = c :: joinUnits units := by
  cases units with
  | nil => rfl
  | cons unit rest =>
      obtain ⟨d, escaped'⟩ := unit
      rw [joinUnits, if_neg]
      rintro ⟨hescaped, -, hhigh, -⟩
      have hlow := h hescaped
      simp only [isHigh, decide_eq_true_eq] at hhigh
      omega

theorem scanString_dumps (text rest : Text) : ∃ units, joinUnits units = text ∧
    scanString .plain (text.flatMap escapePoint ++ codePoint '"' :: rest) = some (units, rest) := by
  induction text with
  | nil => exact ⟨[], rfl, rfl⟩
  | cons c text ih =>
      obtain ⟨units, hunits, hscan⟩ := ih
      obtain ⟨escaped, hescaped, hpoint⟩ :=
        scanString_escapePoint c (text.flatMap escapePoint ++ codePoint '"' :: rest)
      refine ⟨(c, escaped) :: units, ?_, ?_⟩
      · rw [joinUnits_cons hescaped, hunits]
      · rw [List.flatMap_cons, List.append_assoc, hpoint, hscan, Option.map_some]

end Strings

section Scalars

@[simp] theorem charsOf_pointsOf (text : List Char) : charsOf (pointsOf text) = text := by
  unfold charsOf pointsOf
  rw [List.map_map]
  exact (List.map_congr_left fun c _ => Char.ofNat_toNat c).trans (List.map_id text)

theorem readNumber_quote (rest : List Char) : readNumber ('"' :: rest) = none := rfl

-- No number begins with a quotation mark or is one of the three names.
theorem readScalar_number {text : List Char} {x : Int ⊕ PyFloat} (h : readNumber text = some x) :
    readScalar (pointsOf text) = some (numberValue x) := by
  have hname : ∀ name : String, readNumber name.toList = none → pointsOf text ≠ textOf name := by
    intro name hnone heq
    have htext := congrArg charsOf heq
    rw [show textOf name = pointsOf name.toList from rfl, charsOf_pointsOf, charsOf_pointsOf] at htext
    rw [htext, hnone] at h
    cases h
  have hquote : (pointsOf text).head? ≠ some (codePoint '"') := by
    intro hhead
    cases text with
    | nil => cases hhead
    | cons c rest =>
        have hc : c = '"' := by
          have hcode : Char.ofNat c.toNat = Char.ofNat '"'.toNat :=
            congrArg (fun d : CodePoint => Char.ofNat d.val) (Option.some.inj hhead)
          rwa [Char.ofNat_toNat, Char.ofNat_toNat] at hcode
        subst hc
        rw [readNumber_quote] at h
        cases h
  unfold readScalar
  rw [if_neg hquote, if_neg (hname "null" (by decide)), if_neg (hname "true" (by decide)),
    if_neg (hname "false" (by decide)), charsOf_pointsOf, h, Option.map_some]

-- The values that a predicate or a column may have.
def JsonValue.isScalar : JsonValue → Bool
  | .null | .bool _ | .int _ | .str _ => true
  | .float value => value.isfinite
  | .list _ | .dict _ => false

theorem readScalar_dumps {value : JsonValue} (h : value.isScalar = true)
    (itemSeparator keySeparator : Text) :
    readScalar (dumps itemSeparator keySeparator value) = some value := by
  cases value with
  | null => rw [dumps, readScalar, if_neg (by decide), if_pos rfl]
  | bool value =>
      cases value with
      | true => rw [dumps, readScalar, if_neg (by decide), if_neg (by decide), if_pos rfl]
      | false =>
          rw [dumps, readScalar, if_neg (by decide), if_neg (by decide), if_neg (by decide), if_pos rfl]
  | int value => rw [dumps, readScalar_number (readNumber_integerText value), numberValue]
  | float value => rw [dumps, readScalar_number (readNumber_text h), numberValue]
  | str value =>
      obtain ⟨units, hunits, hscan⟩ := scanString_dumps value []
      rw [dumps, dumpsText, List.cons_append, readScalar, if_pos List.head?_cons, List.tail_cons,
        readString, hscan, ← hunits]
  | list items => cases h
  | dict items => cases h

-- Neither a blank nor a quotation mark stands in a scalar that is no string.
theorem foreign_readScalar {b : Char} (hb : isForeign b = true) {text : Text} {value : JsonValue}
    (h : readScalar text = some value) (hquote : text.head? ≠ some (codePoint '"')) :
    codePoint b ∉ text := by
  have hname : codePoint b ∉ textOf "null" ∧ codePoint b ∉ textOf "true" ∧ codePoint b ∉ textOf "false" := by
    obtain rfl | rfl := of_decide_eq_true hb
    · decide
    · decide
  unfold readScalar at h
  rw [if_neg hquote] at h
  split_ifs at h with hnull htrue hfalse
  · rw [hnull]
    exact hname.1
  · rw [htrue]
    exact hname.2.1
  · rw [hfalse]
    exact hname.2.2
  · obtain ⟨x, hx, -⟩ := Option.map_eq_some_iff.mp h
    intro hforeign
    refine foreign_readNumber hb hx (List.mem_map.mpr ⟨codePoint b, hforeign, ?_⟩)
    exact Char.ofNat_toNat b

-- What follows a scalar: nothing, or a blank.
def Ends (text : Text) : Prop := ∀ c ∈ text.head?, c = codePoint ' '

theorem takeWhile_ends {text rest : Text} (h : codePoint ' ' ∉ text) (hrest : Ends rest) :
    (text ++ rest).takeWhile (· ≠ codePoint ' ') = text := by
  rw [List.takeWhile_append_of_pos fun c hc => by
    simp only [ne_eq, decide_not, Bool.not_eq_true', decide_eq_false_iff_not]
    rintro rfl
    exact h hc]
  cases rest with
  | nil => simp
  | cons c rest =>
      rw [hrest c rfl, List.takeWhile_cons_of_neg (by simp), List.append_nil]

-- A text has at most one scalar at its head that ends there.
theorem readScalar_prefix {a b x y : Text} {v w : JsonValue} (ha : readScalar a = some v)
    (hb : readScalar b = some w) (hx : Ends x) (hy : Ends y) (h : a ++ x = b ++ y) : a = b ∧ x = y := by
  have hhead : ∀ {a : Text} {v : JsonValue} (z : Text), readScalar a = some v →
    (a ++ z).head? = a.head? := by
    intro a v z hread
    cases a with
    | nil => cases hread
    | cons c a => rfl
  have hheads : a.head? = b.head? := by rw [← hhead x ha, h, hhead y hb]
  by_cases hquote : a.head? = some (codePoint '"')
  · have hstring : ∀ {a : Text} {v : JsonValue} (z : Text), a.head? = some (codePoint '"') →
      readScalar a = some v →
        ∃ units, scanString .plain (a ++ z).tail = some (units, z) := by
      intro a v z hhead hread
      rw [readScalar, if_pos hhead, readString] at hread
      split at hread
      · rename_i units hscan
        have hne : a ≠ [] := by
          rintro rfl
          cases hhead
        rw [List.tail_append_of_ne_nil hne]
        exact ⟨units, scanString_append hscan⟩
      · cases hread
    obtain ⟨units, hunits⟩ := hstring x hquote ha
    obtain ⟨units', hunits'⟩ := hstring y (hheads ▸ hquote) hb
    rw [h, hunits'] at hunits
    obtain ⟨-, rfl⟩ := Prod.mk.inj (Option.some.inj hunits)
    exact ⟨List.append_cancel_right h, rfl⟩
  · have hab : a = b := by
      rw [← takeWhile_ends (foreign_readScalar rfl ha hquote) hx, h,
        takeWhile_ends (foreign_readScalar rfl hb (hheads ▸ hquote)) hy]
    rw [hab] at h
    exact ⟨hab, List.append_cancel_left h⟩

end Scalars

end Scaffold.Python
