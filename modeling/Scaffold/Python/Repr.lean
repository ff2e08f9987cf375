import Mathlib.Algebra.Group.Int.Defs
import Mathlib.Algebra.Group.Nat.Defs
import Mathlib.Tactic.Common
import Scaffold.Positional

namespace Scaffold.Python

open Positional

-- The code points that `str.isspace` accepts.
def isSpace (c : Char) : Bool :=
  (9 ≤ c.toNat ∧ c.toNat ≤ 13) ∨ (28 ≤ c.toNat ∧ c.toNat ≤ 32) ∨ c.toNat = 133 ∨ c.toNat = 160 ∨
    c.toNat = 5760 ∨ (8192 ≤ c.toNat ∧ c.toNat ≤ 8202) ∨ c.toNat = 8232 ∨ c.toNat = 8233 ∨
    c.toNat = 8239 ∨ c.toNat = 8287 ∨ c.toNat = 12288

def strip (text : String) : String :=
  .ofList ((text.toList.dropWhile isSpace).reverse.dropWhile isSpace).reverse

-- The text of a Python value as `repr` and `format` write it.

def hexDigit (n : Nat) : Char :=
  if n < 10 then .ofNat (48 + n) else .ofNat (87 + n)

-- The lower-case hexadecimal digits of a number, with leading zeros.
def hexDigits : Nat → Nat → List Char
  | 0, _ => []
  | width + 1, n => hexDigits width (n / 16) ++ [hexDigit (n % 16)]

-- The decimal digits of a number, with leading zeros.
def paddedDecimal : Nat → Nat → List Char
  | 0, _ => []
  | width + 1, n => paddedDecimal width (n / 10) ++ [hexDigit (n % 10)]

-- `str` of a UUID: hexadecimal digits in groups of 8, 4, 4, 4 and 12.
def uuidText (id : BitVec 128) : String :=
  let digits := hexDigits 32 id.toNat
  .ofList (digits.take 8 ++ ['-'] ++ (digits.drop 8).take 4 ++ ['-'] ++ (digits.drop 12).take 4 ++ ['-'] ++
    (digits.drop 16).take 4 ++ ['-'] ++ digits.drop 20)

section Repr

-- `str.isprintable` on the characters after ASCII
variable (printable : Char → Bool)

def escape (quote c : Char) : List Char :=
  if c = quote ∨ c = '\\' then ['\\', c]
  else if c = '\t' then ['\\', 't']
  else if c = '\n' then ['\\', 'n']
  else if c = '\r' then ['\\', 'r']
  else if c.toNat < 32 ∨ c.toNat = 127 then ['\\', 'x'] ++ hexDigits 2 c.toNat
  else if c.toNat < 127 ∨ printable c then [c]
  else if c.toNat ≤ 255 then ['\\', 'x'] ++ hexDigits 2 c.toNat
  else if c.toNat ≤ 65535 then ['\\', 'u'] ++ hexDigits 4 c.toNat
  else ['\\', 'U'] ++ hexDigits 8 c.toNat

-- Double quotes are used only when they save escapes.
def quoteOf (text : List Char) : Char :=
  if '\'' ∈ text ∧ '"' ∉ text then '"' else '\''

def reprChars (text : List Char) : List Char :=
  quoteOf text :: text.flatMap (escape printable (quoteOf text)) ++ [quoteOf text]

def repr (text : String) : String :=
  .ofList (reprChars printable text.toList)

-- The items of a tuple, each after the first behind a comma and a blank.
def reprItems : List String → List Char
  | [] => []
  | [item] => reprChars printable item.toList
  | item :: rest => reprChars printable item.toList ++ [',', ' '] ++ reprItems rest

-- A tuple of at least two strings.
def reprTuple (items : List String) : String :=
  .ofList ('(' :: reprItems printable items ++ [')'])

end Repr

example : repr (fun _ => true) "it's \"x\"\n" = "'it\\'s \"x\"\\n'" := by decide

section Digits

theorem hexDigit_injective {m n : Nat} (hm : m < 16) (hn : n < 16) (h : hexDigit m = hexDigit n) :
    m = n := by
  have hall : ∀ a b : Fin 16, hexDigit a = hexDigit b → a = b := by decide
  exact congrArg Fin.val (hall ⟨m, hm⟩ ⟨n, hn⟩ h)

theorem hexDigits_eq (width n : Nat) : hexDigits width n = (digits 16 width n).map hexDigit := by
  induction width generalizing n with
  | zero => rfl
  | succ width ih => simp [hexDigits, digits, ih]

theorem paddedDecimal_eq (width n : Nat) : paddedDecimal width n = (digits 10 width n).map hexDigit := by
  induction width generalizing n with
  | zero => rfl
  | succ width ih => simp [paddedDecimal, digits, ih]

@[simp] theorem hexDigits_length (width n : Nat) : (hexDigits width n).length = width := by
  simp [hexDigits_eq]

@[simp] theorem paddedDecimal_length (width n : Nat) : (paddedDecimal width n).length = width := by
  simp [paddedDecimal_eq]

theorem hexDigits_injective {width m n : Nat} (hm : m < 16 ^ width) (hn : n < 16 ^ width)
    (h : hexDigits width m = hexDigits width n) : m = n := by
  rw [hexDigits_eq, hexDigits_eq] at h
  exact map_digits_injective (by decide) (fun _ _ => hexDigit_injective) hm hn h

theorem paddedDecimal_injective {width m n : Nat} (hm : m < 10 ^ width) (hn : n < 10 ^ width)
    (h : paddedDecimal width m = paddedDecimal width n) : m = n := by
  rw [paddedDecimal_eq, paddedDecimal_eq] at h
  have hdigit : ∀ i j, i < 10 → j < 10 → hexDigit i = hexDigit j → i = j :=
    fun i j hi hj => hexDigit_injective (by omega) (by omega)
  exact map_digits_injective (by decide) hdigit hm hn h

theorem not_mem_hexDigits {c : Char} (hall : ∀ a : Fin 16, hexDigit a ≠ c) (width n : Nat) :
    c ∉ hexDigits width n := by
  induction width generalizing n with
  | zero => simp [hexDigits]
  | succ width ih =>
      have hlast := hall ⟨n % 16, by omega⟩
      simp [hexDigits, ih, hlast.symm]

-- Without its dashes the text of a UUID is its digits.
theorem uuidText_filter (id : BitVec 128) :
    (uuidText id).toList.filter (· ≠ '-') = hexDigits 32 id.toNat := by
  have hdash : '-' ∉ hexDigits 32 id.toNat := not_mem_hexDigits (by decide) 32 id.toNat
  have hkeep : ∀ part : List Char, (∀ c ∈ part, c ∈ hexDigits 32 id.toNat) →
    part.filter (· ≠ '-') = part := by
    intro part hpart
    rw [List.filter_eq_self]
    intro c hc
    have hne : c ≠ '-' := fun heq => hdash (heq ▸ hpart c hc)
    simpa using hne
  have hjoin : ∀ k n, ((hexDigits 32 id.toNat).drop k).take n ++ (hexDigits 32 id.toNat).drop (k + n) =
      (hexDigits 32 id.toNat).drop k := by
    intro k n
    rw [← List.drop_drop, List.take_append_drop]
  have hmiddle : ∀ k n, (((hexDigits 32 id.toNat).drop k).take n).filter (· ≠ '-') =
      ((hexDigits 32 id.toNat).drop k).take n :=
    fun k n => hkeep _ fun c hc => List.mem_of_mem_drop (List.mem_of_mem_take hc)
  have hfirst := hkeep ((hexDigits 32 id.toNat).take 8) fun c hc => List.mem_of_mem_take hc
  have hlast := hkeep ((hexDigits 32 id.toNat).drop 20) fun c hc => List.mem_of_mem_drop hc
  have hnone : ['-'].filter (· ≠ '-') = [] := by decide
  simp only [uuidText, String.toList_ofList, List.filter_append, hfirst, hlast, hmiddle, hnone,
    List.nil_append, List.append_assoc]
  rw [hjoin 16 4, hjoin 12 4, hjoin 8 4, List.take_append_drop]

theorem mem_uuidText {id : BitVec 128} {c : Char} (h : c ∈ (uuidText id).toList) (hdash : c ≠ '-') :
    c ∈ hexDigits 32 id.toNat := by
  rw [← uuidText_filter]
  exact List.mem_filter.mpr ⟨h, by simpa using hdash⟩

theorem uuidText_length (id : BitVec 128) : (uuidText id).toList.length = 36 := by
  simp [uuidText]

theorem uuidText_injective {a b : BitVec 128} (h : uuidText a = uuidText b) : a = b := by
  have hdigits : hexDigits 32 a.toNat = hexDigits 32 b.toNat := by
    rw [← uuidText_filter, h, uuidText_filter]
  exact BitVec.eq_of_toNat_eq (hexDigits_injective a.isLt b.isLt hdigits)

end Digits

section Unique

variable {printable : Char → Bool}

-- The letter of an escape with hexadecimal digits, and how many digits follow it.
inductive HexEscape : Char → Nat → Prop
  | byte : HexEscape 'x' 2
  | short : HexEscape 'u' 4
  | long : HexEscape 'U' 8

theorem HexEscape.width_unique {mark : Char} {m n : Nat} (hm : HexEscape mark m)
    (hn : HexEscape mark n) : m = n := by
  cases hm <;> cases hn <;> rfl

-- The letter of an escape without digits.
inductive ShortEscape (quote : Char) : Char → Char → Prop
  | quote : ShortEscape quote quote quote
  | backslash : ShortEscape quote '\\' '\\'
  | tab : ShortEscape quote '\t' 't'
  | newline : ShortEscape quote '\n' 'n'
  | carriage : ShortEscape quote '\r' 'r'

inductive Escaped (quote c : Char) : List Char → Prop
  | plain (hquote : c ≠ quote) (hbackslash : c ≠ '\\') : Escaped quote c [c]
  | short (mark : Char) (hmark : ShortEscape quote c mark) : Escaped quote c ['\\', mark]
  | hex (mark : Char) (width : Nat) (hmark : HexEscape mark width) (hwidth : c.toNat < 16 ^ width) :
      Escaped quote c (['\\', mark] ++ hexDigits width c.toNat)

theorem escape_escaped (quote c : Char) : Escaped quote c (escape printable quote c) := by
  have hlong : c.toNat < 16 ^ 8 := by
    have hvalid := c.valid
    have hle : c.toNat < 1114112 := by
      rcases hvalid with h | ⟨-, h⟩
      · have : c.toNat < 55296 := h
        omega
      · exact h
    omega
  unfold escape
  split_ifs with hspecial htab hnewline hcarriage hcontrol hprintable hbyte hshort
  · obtain rfl | rfl := hspecial
    · exact .short c .quote
    · exact .short '\\' .backslash
  · subst htab
    exact .short 't' .tab
  · subst hnewline
    exact .short 'n' .newline
  · subst hcarriage
    exact .short 'r' .carriage
  · exact .hex 'x' 2 .byte (by omega)
  · exact .plain (fun h => hspecial (.inl h)) fun h => hspecial (.inr h)
  · exact .hex 'x' 2 .byte (by omega)
  · exact .hex 'u' 4 .short (by omega)
  · exact .hex 'U' 8 .long hlong

theorem quoteOf_cases (text : List Char) : quoteOf text = '"' ∨ quoteOf text = '\'' := by
  unfold quoteOf
  split_ifs
  · exact .inl rfl
  · exact .inr rfl

theorem ShortEscape.unique {quote c c' mark : Char} (hquote : quote = '"' ∨ quote = '\'')
    (h : ShortEscape quote c mark) (h' : ShortEscape quote c' mark) : c = c' := by
  obtain rfl | rfl := hquote <;> cases h <;> cases h' <;> rfl

theorem ShortEscape.not_hex {quote c mark : Char} {width : Nat} (hquote : quote = '"' ∨ quote = '\'')
    (h : ShortEscape quote c mark) : ¬ HexEscape mark width := by
  intro hhex
  obtain rfl | rfl := hquote <;> cases h <;> cases hhex

-- The escapes of two characters are no prefixes of each other.
theorem Escaped.unique {quote c c' : Char} {xs ys rest rest' : List Char}
    (hquote : quote = '"' ∨ quote = '\'') (hx : Escaped quote c xs) (hy : Escaped quote c' ys)
    (h : xs ++ rest = ys ++ rest') : c = c' ∧ rest = rest' := by
  cases hx with
  | plain hne hback =>
      cases hy with
      | plain hne' hback' =>
          injection h with hc hrest
          exact ⟨hc, hrest⟩
      | short mark hmark =>
          injection h with hc hrest
          exact absurd hc hback
      | hex mark width hmark hwidth =>
          injection h with hc hrest
          exact absurd hc hback
  | short mark hmark =>
      cases hy with
      | plain hne' hback' =>
          injection h with hc hrest
          exact absurd hc.symm hback'
      | short mark' hmark' =>
          injection h with hc hrest
          injection hrest with hm hrest
          subst hm
          exact ⟨hmark.unique hquote hmark', hrest⟩
      | hex mark' width hmark' hwidth =>
          injection h with hc hrest
          injection hrest with hm hrest
          subst hm
          exact absurd hmark' (hmark.not_hex hquote)
  | hex mark width hmark hwidth =>
      cases hy with
      | plain hne' hback' =>
          injection h with hc hrest
          exact absurd hc.symm hback'
      | short mark' hmark' =>
          injection h with hc hrest
          injection hrest with hm hrest
          subst hm
          exact absurd hmark (hmark'.not_hex hquote)
      | hex mark' width' hmark' hwidth' =>
          injection h with hc hrest
          injection hrest with hm hrest
          subst hm
          obtain rfl := hmark.width_unique hmark'
          obtain ⟨hdigits, hrest⟩ := List.append_inj hrest (by simp)
          refine ⟨?_, hrest⟩
          exact Char.toNat_inj.mp (hexDigits_injective hwidth hwidth' hdigits)

-- The closing quote begins no escape.
theorem Escaped.ne_quote {quote c : Char} {xs rest rest' : List Char} (hquote : quote = '"' ∨ quote = '\'')
    (h : Escaped quote c xs) : xs ++ rest ≠ quote :: rest' := by
  have hback : '\\' ≠ quote := by
    obtain rfl | rfl := hquote <;> decide
  intro heq
  cases h with
  | plain hne _ =>
      injection heq with hc _
      exact hne hc
  | short mark _ =>
      injection heq with hc _
      exact hback hc
  | hex mark width _ _ =>
      injection heq with hc _
      exact hback hc

theorem escapes_unique {quote : Char} (hquote : quote = '"' ∨ quote = '\'')
    {text text' rest rest' : List Char}
    (h : text.flatMap (escape printable quote) ++ quote :: rest =
      text'.flatMap (escape printable quote) ++ quote :: rest') : text = text' ∧ rest = rest' := by
  induction text generalizing text' with
  | nil =>
      cases text' with
      | nil =>
          injection h with _ hrest
          exact ⟨rfl, hrest⟩
      | cons c' text' =>
          rw [List.flatMap_cons, List.append_assoc] at h
          exact absurd h.symm ((escape_escaped quote c').ne_quote hquote)
  | cons c text ih =>
      cases text' with
      | nil =>
          rw [List.flatMap_cons, List.append_assoc] at h
          exact absurd h ((escape_escaped quote c).ne_quote hquote)
      | cons c' text' =>
          rw [List.flatMap_cons, List.append_assoc, List.flatMap_cons, List.append_assoc] at h
          obtain ⟨rfl, htail⟩ := (escape_escaped quote c).unique hquote (escape_escaped quote c') h
          obtain ⟨rfl, hrest⟩ := ih htail
          exact ⟨rfl, hrest⟩

-- A text can be read back from its representation, whatever follows.
theorem reprChars_unique {text text' rest rest' : List Char}
    (h : reprChars printable text ++ rest = reprChars printable text' ++ rest') :
      text = text' ∧ rest = rest' := by
  simp only [reprChars, List.cons_append, List.append_assoc] at h
  injection h with hquote hrest
  rw [hquote] at hrest
  exact escapes_unique (quoteOf_cases text') hrest

theorem reprItems_unique {items items' : List String} (hlength : items.length = items'.length)
    (h : reprItems printable items = reprItems printable items') : items = items' := by
  induction items generalizing items' with
  | nil => exact (List.length_eq_zero_iff.mp hlength.symm).symm
  | cons item rest ih =>
      cases items' with
      | nil => cases hlength
      | cons item' rest' =>
          cases rest with
          | nil =>
              obtain rfl := List.length_eq_zero_iff.mp (Nat.succ.inj hlength).symm
              simp only [reprItems] at h
              have hchars : reprChars printable item.toList ++ [] =
                reprChars printable item'.toList ++ [] := by
                simpa using h
              have hitem := reprChars_unique hchars
              rw [String.toList_inj.mp hitem.1]
          | cons second rest =>
              cases rest' with
              | nil => cases hlength
              | cons second' rest' =>
                  simp only [reprItems, List.append_assoc] at h
                  obtain ⟨hitem, hrest⟩ := reprChars_unique h
                  rw [String.toList_inj.mp hitem, ih (Nat.succ.inj hlength)
                    (by simpa [reprItems] using hrest)]

theorem reprTuple_unique {items items' : List String} (hlength : items.length = items'.length)
    (h : reprTuple printable items = reprTuple printable items') : items = items' := by
  have hchars := congrArg String.toList h
  simp only [reprTuple, String.toList_ofList] at hchars
  injection hchars with _ hitems
  exact reprItems_unique hlength (List.append_cancel_right hitems)

end Unique

end Scaffold.Python
