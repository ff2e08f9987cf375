import Mathlib.Data.List.Basic
import Mathlib.Tactic.IntervalCases
import Scaffold.Python.Repr

namespace Scaffold.Python

-- Compact JSON as UTF-8.

def jsonEscape (c : Char) : List Char :=
  if c = '"' then ['\\', '"']
  else if c = '\\' then ['\\', '\\']
  else if c.toNat = 8 then ['\\', 'b']
  else if c.toNat = 9 then ['\\', 't']
  else if c.toNat = 10 then ['\\', 'n']
  else if c.toNat = 12 then ['\\', 'f']
  else if c.toNat = 13 then ['\\', 'r']
  else if c.toNat < 32 then ['\\', 'u', '0', '0'] ++ hexDigits 2 c.toNat
  else [c]

def jsonString (text : List Char) : List Char :=
  '"' :: text.flatMap jsonEscape ++ ['"']

def jsonNull : List Char := ['n', 'u', 'l', 'l']

def jsonOption (text : Option (List Char)) : List Char :=
  match text with
  | none => jsonNull
  | some text => jsonString text

def jsonField (name : String) (value : List Char) : List Char :=
  jsonString name.toList ++ ':' :: value

-- The fields of an object after the first one, each behind a comma, and the closing brace.
def jsonFields : List (String × List Char) → List Char
  | [] => ['\x7d']
  | (name, value) :: rest => ',' :: jsonField name value ++ jsonFields rest

def jsonObject (name : String) (value : List Char) (rest : List (String × List Char)) : List Char :=
  '\x7b' :: jsonField name value ++ jsonFields rest

def utf8 (text : List Char) : List UInt8 :=
  text.flatMap String.utf8EncodeChar

section Utf8

@[simp] theorem utf8_append (a b : List Char) : utf8 (a ++ b) = utf8 a ++ utf8 b :=
  List.flatMap_append

theorem utf8_injective {a b : List Char} (h : utf8 a = utf8 b) : a = b := by
  have hbytes : a.utf8Encode = b.utf8Encode := by
    simp only [List.utf8Encode]
    exact congrArg List.toByteArray h
  have hstring : String.ofList a = String.ofList b := by
    apply String.toByteArray_inj.mp
    simpa using hbytes
  simpa using congrArg String.toList hstring

end Utf8

section Strings

def hexValue (c : Char) : Nat :=
  if c.toNat < 58 then c.toNat - 48 else c.toNat - 87

-- The first character of the inside of a string, and the rest.
def jsonUnescape : List Char → Option (Char × List Char)
  | '\\' :: 'u' :: _ :: _ :: high :: low :: rest => some (.ofNat (16 * hexValue high + hexValue low), rest)
  | '\\' :: 'b' :: rest => some (.ofNat 8, rest)
  | '\\' :: 't' :: rest => some ('\t', rest)
  | '\\' :: 'n' :: rest => some ('\n', rest)
  | '\\' :: 'f' :: rest => some (.ofNat 12, rest)
  | '\\' :: 'r' :: rest => some ('\r', rest)
  | '\\' :: c :: rest => some (c, rest)
  | c :: rest => some (c, rest)
  | [] => none

theorem jsonUnescape_escape (c : Char) (rest : List Char) :
    jsonUnescape (jsonEscape c ++ rest) = some (c, rest) := by
  by_cases hlow : c.toNat < 32
  · obtain ⟨n, hn, rfl⟩ : ∃ n, n < 32 ∧ c = Char.ofNat n := ⟨c.toNat, hlow, (Char.ofNat_toNat c).symm⟩
    clear hlow
    interval_cases n <;> rfl
  · by_cases hquote : c = '"'
    · subst hquote
      rfl
    · by_cases hslash : c = '\\'
      · subst hslash
        rfl
      · have hescape : jsonEscape c = [c] := by
          unfold jsonEscape
          simp only [hquote, hslash, if_false]
          rw [if_neg (by omega), if_neg (by omega), if_neg (by omega), if_neg (by omega), if_neg (by omega),
            if_neg hlow]
        rw [hescape, List.singleton_append]
        unfold jsonUnescape
        split <;> simp_all

theorem jsonEscape_append_injective {c d : Char} {x y : List Char}
    (h : jsonEscape c ++ x = jsonEscape d ++ y) : c = d ∧ x = y := by
  have hread := congrArg jsonUnescape h
  rw [jsonUnescape_escape, jsonUnescape_escape] at hread
  exact Prod.mk.inj (Option.some.inj hread)

theorem jsonEscape_head (c : Char) : ∃ e rest, jsonEscape c = e :: rest ∧ e ≠ '"' := by
  unfold jsonEscape
  split_ifs with hquote
  all_goals first
    | exact ⟨c, [], rfl, hquote⟩
    | exact ⟨_, _, rfl, by decide⟩

-- A string ends at its first quotation mark.
theorem jsonString_append_injective {a b x y : List Char} (h : jsonString a ++ x = jsonString b ++ y) :
    a = b ∧ x = y := by
  have hinside : a.flatMap jsonEscape ++ '"' :: x = b.flatMap jsonEscape ++ '"' :: y := by
    simpa [jsonString] using h
  clear h
  induction a generalizing b with
  | nil =>
      cases b with
      | nil => exact ⟨rfl, by simpa using hinside⟩
      | cons d ds =>
          obtain ⟨e, rest, he, hne⟩ := jsonEscape_head d
          simp [he] at hinside
          exact absurd hinside.1.symm hne
  | cons c cs ih =>
      cases b with
      | nil =>
          obtain ⟨e, rest, he, hne⟩ := jsonEscape_head c
          simp [he] at hinside
          exact absurd hinside.1 hne
      | cons d ds =>
          simp only [List.flatMap_cons, List.append_assoc] at hinside
          obtain ⟨rfl, hrest⟩ := jsonEscape_append_injective hinside
          obtain ⟨rfl, hxy⟩ := ih hrest
          exact ⟨rfl, hxy⟩

theorem jsonOption_append_injective {a b : Option (List Char)} {x y : List Char}
    (h : jsonOption a ++ x = jsonOption b ++ y) : a = b ∧ x = y := by
  cases a with
  | none =>
      cases b with
      | none => exact ⟨rfl, List.append_cancel_left h⟩
      | some b => simp [jsonOption, jsonNull, jsonString] at h
  | some a =>
      cases b with
      | none => simp [jsonOption, jsonNull, jsonString] at h
      | some b =>
          obtain ⟨rfl, hxy⟩ := jsonString_append_injective h
          exact ⟨rfl, hxy⟩

-- Two objects with one key: what follows it is the same.
theorem jsonFields_cons_injective {name : String} {v w : List Char} {rest rest' : List (String × List Char)}
    (h : jsonFields ((name, v) :: rest) = jsonFields ((name, w) :: rest')) :
    v ++ jsonFields rest = w ++ jsonFields rest' := by
  simp only [jsonFields, jsonField, List.append_assoc, List.cons_append, List.cons.injEq, true_and] at h
  exact (List.cons.inj (List.append_cancel_left h)).2

end Strings

section Width

-- The characters of one byte that need no escape.
def plain (c : Char) : Bool :=
  32 ≤ c.toNat ∧ c.toNat < 128 ∧ c ≠ '"' ∧ c ≠ '\\'

theorem utf8_escape_plain {c : Char} (h : plain c = true) : (utf8 (jsonEscape c)).length = 1 := by
  simp only [plain, decide_eq_true_eq] at h
  obtain ⟨hlow, hhigh, hquote, hslash⟩ := h
  have hescape : jsonEscape c = [c] := by
    unfold jsonEscape
    simp only [hquote, hslash, if_false]
    rw [if_neg (by omega), if_neg (by omega), if_neg (by omega), if_neg (by omega), if_neg (by omega),
      if_neg (by omega)]
  have hsize : c.utf8Size = 1 := Char.utf8Size_eq_one_iff.mpr (by
    rw [UInt32.le_iff_toNat_le]
    exact Nat.le_of_lt_succ hhigh)
  rw [hescape]
  simp [utf8, hsize]

theorem utf8_jsonString_plain {text : List Char} (h : ∀ c ∈ text, plain c = true) :
    (utf8 (jsonString text)).length = text.length + 2 := by
  have hinside : (utf8 (text.flatMap jsonEscape)).length = text.length := by
    induction text with
    | nil => rfl
    | cons c rest ih =>
        have hc := utf8_escape_plain (h c (by simp))
        have hrest := ih fun x hx => h x (by simp [hx])
        rw [List.flatMap_cons, utf8_append, List.length_append, hc, hrest, List.length_cons]
        omega
  have hquote : (utf8 ['"']).length = 1 := by decide
  rw [jsonString, List.cons_append, ← List.singleton_append, utf8_append, utf8_append, List.length_append,
    List.length_append, hinside, hquote]
  omega

-- The bytes of a key with its punctuation.
def keyWidth (name : String) : Nat :=
  (utf8 (',' :: jsonString name.toList ++ [':'])).length

theorem utf8_jsonFields_cons (name : String) (value : List Char) (rest : List (String × List Char)) :
    (utf8 (jsonFields ((name, value) :: rest))).length =
      keyWidth name + (utf8 value).length + (utf8 (jsonFields rest)).length := by
  have hsplit : jsonFields ((name, value) :: rest) =
      (',' :: jsonString name.toList ++ [':']) ++ (value ++ jsonFields rest) := by
    simp [jsonFields, jsonField]
  simp only [hsplit, keyWidth, utf8_append, List.length_append]
  omega

theorem plain_hexDigit {n : Nat} (h : n < 16) : plain (hexDigit n) = true := by
  have hall : ∀ a : Fin 16, plain (hexDigit a) = true := by decide
  exact hall ⟨n, h⟩

theorem plain_hexDigits {width n : Nat} : ∀ c ∈ hexDigits width n, plain c = true := by
  induction width generalizing n with
  | zero => simp [hexDigits]
  | succ width ih =>
      intro c hc
      rcases List.mem_append.mp hc with hc | hc
      · exact ih c hc
      · rw [List.mem_singleton.mp hc]
        exact plain_hexDigit (by omega)

theorem plain_paddedDecimal {width n : Nat} : ∀ c ∈ paddedDecimal width n, plain c = true := by
  induction width generalizing n with
  | zero => simp [paddedDecimal]
  | succ width ih =>
      intro c hc
      rcases List.mem_append.mp hc with hc | hc
      · exact ih c hc
      · rw [List.mem_singleton.mp hc]
        exact plain_hexDigit (by omega)

theorem plain_uuidText (id : BitVec 128) : ∀ c ∈ (uuidText id).toList, plain c = true := by
  intro c hc
  by_cases hdash : c = '-'
  · subst hdash
    decide
  · have hmem : c ∈ (uuidText id).toList.filter (· ≠ '-') := List.mem_filter.mpr ⟨hc, by simpa using hdash⟩
    rw [uuidText_filter] at hmem
    exact plain_hexDigits c hmem

theorem utf8_jsonString_uuid (id : BitVec 128) : (utf8 (jsonString (uuidText id).toList)).length = 38 := by
  rw [utf8_jsonString_plain (plain_uuidText id), uuidText_length]

end Width

end Scaffold.Python
