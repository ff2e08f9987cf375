import Scaffold.Python.JsonScalar

namespace Scaffold.Python

-- Where a reader of a text stands that knows of its strings only: outside of them, in one of them, or
-- behind a backslash there.
inductive Place where
  | outside
  | inside
  | escaped
  deriving DecidableEq

namespace Place

def step : Place → CodePoint → Place
  | .outside, c => if c = codePoint '"' then .inside else .outside
  | .inside, c => if c = codePoint '"' then .outside else if c = codePoint '\\' then .escaped else .inside
  | .escaped, _ => .inside

def after (place : Place) (text : Text) : Place := text.foldl step place

-- The characters of a kind.
def count (kind : Place → CodePoint → Bool) : Place → Text → Nat
  | _, [] => 0
  | place, c :: rest => (if kind place c then 1 else 0) + count kind (place.step c) rest

-- The quotation marks that open or close a string.
def delimiter (place : Place) (c : CodePoint) : Bool := place ≠ .escaped ∧ c = codePoint '"'

def separator (place : Place) (c : CodePoint) : Bool := place = .outside ∧ c = codePoint ' '

section Count

variable {kind : Place → CodePoint → Bool} {place : Place}

theorem after_append (a b : Text) : place.after (a ++ b) = (place.after a).after b := List.foldl_append

theorem count_append (a b : Text) :
    place.count kind (a ++ b) = place.count kind a + (place.after a).count kind b := by
  induction a generalizing place with
  | nil => exact (Nat.zero_add _).symm
  | cons c a ih =>
      rw [List.cons_append, count, count, ih, Nat.add_assoc]
      rfl

end Count

-- Outside of strings every quotation mark opens one.
theorem quote_not_mem {text : Text} (h : count delimiter .outside text = 0) : codePoint '"' ∉ text := by
  induction text with
  | nil => simp
  | cons c text ih =>
      rw [count] at h
      by_cases hc : c = codePoint '"'
      · subst hc
        have hopens : delimiter .outside (codePoint '"') = true := by decide
        rw [if_pos hopens] at h
        omega
      · have hstep : step .outside c = .outside := if_neg hc
        rw [hstep] at h
        rw [List.mem_cons]
        rintro (heq | hmem)
        · exact hc heq.symm
        · exact ih (Nat.eq_zero_of_add_eq_zero_left h) hmem

-- What a text does that is read from a place on: it ends outside of strings, with so many quotation marks
-- and so many blanks outside.
structure Reads (place : Place) (text : Text) (delimiters separators : Nat) : Prop where
  ends : place.after text = .outside
  delimiters : place.count delimiter text = delimiters
  separators : place.count separator text = separators

section Reads

variable {place : Place} {m n m' n' : Nat}

theorem Reads.cons {c : CodePoint} {text : Text} (h : Reads (place.step c) text m n) :
    Reads place (c :: text) ((if delimiter place c then 1 else 0) + m)
      ((if separator place c then 1 else 0) + n) where
  ends := h.ends
  delimiters := by rw [count, h.delimiters]
  separators := by rw [count, h.separators]

theorem Reads.append {a b : Text} (ha : Reads place a m n) (hb : Reads .outside b m' n') :
    Reads place (a ++ b) (m + m') (n + n') where
  ends := by rw [after_append, ha.ends, hb.ends]
  delimiters := by rw [count_append, ha.delimiters, ha.ends, hb.delimiters]
  separators := by rw [count_append, ha.separators, ha.ends, hb.separators]

-- Without a quotation mark a text stays outside.
theorem reads_plain {text : Text} (h : codePoint '"' ∉ text) :
    Reads .outside text 0 (text.count (codePoint ' ')) := by
  induction text with
  | nil => exact ⟨rfl, rfl, rfl⟩
  | cons c text ih =>
      rw [List.mem_cons, not_or] at h
      have hstep : step .outside c = .outside := if_neg (Ne.symm h.1)
      have hrest : Reads (step .outside c) text 0 (text.count (codePoint ' ')) := by
        rw [hstep]
        exact ih h.2
      have hdelimiter : delimiter .outside c = false := by simp [delimiter, Ne.symm h.1]
      have hread := hrest.cons
      rw [hdelimiter] at hread
      rw [List.count_cons, Nat.add_comm]
      simpa [separator] using hread

end Reads

section Strings

-- The place at which a scan of a string stands.
def ofScan : Scan → Place
  | .plain | .hex _ _ => .inside
  | .escape => .escaped

theorem inside_other {c : CodePoint} (hquote : c ≠ codePoint '"') (hslash : c ≠ codePoint '\\') :
    step .inside c = .inside :=
  (if_neg hquote).trans (if_neg hslash)

theorem hexPoint_other {c : CodePoint} {digit : Nat} (h : hexPoint c = some digit) :
    c ≠ codePoint '"' ∧ c ≠ codePoint '\\' := by
  constructor
  · rintro rfl
    have hnone : hexPoint (codePoint '"') = none := by decide
    rw [hnone] at h
    cases h
  · rintro rfl
    have hnone : hexPoint (codePoint '\\') = none := by decide
    rw [hnone] at h
    cases h

-- A scan to the end of a text has seen one quotation mark, the last character.
theorem reads_scanString {scan : Scan} {text : Text} {units : List (CodePoint × Bool)}
    (h : scanString scan text = some (units, [])) : Reads (ofScan scan) text 1 0 := by
  induction text generalizing scan units with
  | nil => cases scan <;> cases h
  | cons c text ih =>
      have hmap : ∀ {unit : CodePoint × Bool},
          ((scanString .plain text).map fun found => (unit :: found.1, found.2)) = some (units, []) →
          ∃ units', scanString .plain text = some (units', []) := by
        intro unit hfound
        obtain ⟨⟨units', rest⟩, hrest, heq⟩ := Option.map_eq_some_iff.mp hfound
        obtain ⟨-, rfl⟩ := Prod.mk.inj heq
        exact ⟨units', hrest⟩
      -- a character that is no delimiter, with the place behind it
      have hnext : ∀ {next : Scan} {units' : List (CodePoint × Bool)},
          scanString next text = some (units', []) → (ofScan scan).step c = ofScan next →
          delimiter (ofScan scan) c = false → Reads (ofScan scan) (c :: text) 1 0 := by
        intro next units' hscan hstep hdelimiter
        have hseparator : separator (ofScan scan) c = false := by cases scan <;> simp [separator, ofScan]
        have hrest : Reads ((ofScan scan).step c) text 1 0 := by
          rw [hstep]
          exact ih hscan
        have hread := hrest.cons
        rwa [hdelimiter, hseparator] at hread
      cases scan with
      | plain =>
          rw [scanString] at h
          by_cases hquote : c = codePoint '"'
          · rw [if_pos hquote] at h
            obtain ⟨-, rfl⟩ := Prod.mk.inj (Option.some.inj h)
            subst hquote
            exact ⟨by decide, by decide, by decide⟩
          · have hdelimiter : delimiter .inside c = false := by simp [delimiter, hquote]
            rw [if_neg hquote] at h
            by_cases hslash : c = codePoint '\\'
            · rw [if_pos hslash] at h
              exact hnext h ((if_neg hquote).trans (if_pos hslash)) hdelimiter
            · rw [if_neg hslash] at h
              split_ifs at h
              obtain ⟨units', hrest⟩ := hmap h
              exact hnext hrest (inside_other hquote hslash) hdelimiter
      | escape =>
          rw [scanString] at h
          split_ifs at h
          · exact hnext h rfl rfl
          · obtain ⟨d, -, hrest⟩ := Option.bind_eq_some_iff.mp h
            obtain ⟨units', hrest⟩ := hmap hrest
            exact hnext hrest rfl rfl
      | hex left value =>
          rw [scanString] at h
          obtain ⟨digit, hdigit, hrest⟩ := Option.bind_eq_some_iff.mp h
          obtain ⟨hquote, hslash⟩ := hexPoint_other hdigit
          have hdelimiter : delimiter .inside c = false := by simp [delimiter, hquote]
          split_ifs at hrest
          · obtain ⟨units', hrest⟩ := hmap hrest
            exact hnext hrest (inside_other hquote hslash) hdelimiter
          · exact hnext hrest (inside_other hquote hslash) hdelimiter

end Strings

-- The quotation marks around a scalar.
def marksOf : JsonValue → Nat
  | .str _ => 2
  | _ => 0

theorem reads_scalar {text : Text} {value : JsonValue} (h : readScalar text = some value) :
    Reads .outside text (marksOf value) 0 := by
  by_cases hhead : text.head? = some (codePoint '"')
  · cases text with
    | nil => cases hhead
    | cons c text =>
        obtain rfl := Option.some.inj hhead
        rw [readScalar, if_pos hhead, List.tail_cons, readString] at h
        split at h
        · rename_i units hscan
          obtain rfl := Option.some.inj h
          have hopened : Reads (step .outside (codePoint '"')) text 1 0 := reads_scanString hscan
          exact hopened.cons
        · cases h
  · have hvalue : marksOf value = 0 := by
      unfold readScalar at h
      rw [if_neg hhead] at h
      split_ifs at h
      · obtain rfl := Option.some.inj h
        rfl
      · obtain rfl := Option.some.inj h
        rfl
      · obtain rfl := Option.some.inj h
        rfl
      · obtain ⟨x, -, rfl⟩ := Option.map_eq_some_iff.mp h
        cases x <;> rfl
    have hblank : text.count (codePoint ' ') = 0 :=
      List.count_eq_zero.mpr (foreign_readScalar (b := ' ') rfl h hhead)
    have hplain := reads_plain (foreign_readScalar (b := '"') rfl h hhead)
    rw [hblank] at hplain
    rwa [hvalue]

section Dumps

-- Wherever it is read, an escape ends with no backslash that waits for a character.
theorem after_escapePoint {place : Place} (h : place ≠ .escaped) (c : CodePoint) :
    place.after (escapePoint c) ≠ .escaped := by
  have hascii : ∀ n, n < 128 → ∀ place : Place, place ≠ .escaped →
      place.after (pointsOf (jsonEscape (.ofNat n))) ≠ .escaped := by
    intro n hn place hplace
    cases place with
    | escaped => exact absurd rfl hplace
    | outside => interval_cases n <;> decide
    | inside => interval_cases n <;> decide
  unfold escapePoint
  split_ifs with hsmall
  · exact hascii c.val hsmall place h
  · have hlarge : ∀ d : Char, d.toNat < 128 → c ≠ codePoint d := by
      rintro d hd rfl
      exact hsmall hd
    cases place with
    | escaped => exact absurd rfl h
    | outside =>
        rw [after, List.foldl_cons, List.foldl_nil, step, if_neg (hlarge '"' (by decide))]
        decide
    | inside =>
        rw [after, List.foldl_cons, List.foldl_nil,
          inside_other (hlarge '"' (by decide)) (hlarge '\\' (by decide))]
        decide

theorem after_escapes {place : Place} (h : place ≠ .escaped) (text : Text) :
    place.after (text.flatMap escapePoint) ≠ .escaped := by
  induction text generalizing place with
  | nil => exact h
  | cons c text ih =>
      rw [List.flatMap_cons, after_append]
      exact ih (after_escapePoint h c)

theorem delimiter_quote {place : Place} (h : place ≠ .escaped) (rest : Text) :
    place.count delimiter (codePoint '"' :: rest) =
      1 + (place.step (codePoint '"')).count delimiter rest := by
  have hdelimiter : delimiter place (codePoint '"') = true := by simp [delimiter, h]
  rw [count, if_pos hdelimiter]

-- Both quotation marks of a string count, wherever it is read.
theorem le_count_dumpsText {place : Place} (h : place ≠ .escaped) (text : Text) :
    2 ≤ place.count delimiter (dumpsText text) := by
  have hopened : place.step (codePoint '"') ≠ .escaped := by
    cases place with
    | escaped => exact absurd rfl h
    | outside => decide
    | inside => decide
  rw [dumpsText, List.cons_append, delimiter_quote h, count_append,
    delimiter_quote (after_escapes hopened text)]
  omega

theorem le_count_dumps {place : Place} (h : place ≠ .escaped) (itemSeparator keySeparator : Text)
    (value : JsonValue) : marksOf value ≤ place.count delimiter (dumps itemSeparator keySeparator value) := by
  cases value with
  | str text => exact le_count_dumpsText h text
  | _ => exact Nat.zero_le _

end Dumps

end Place

end Scaffold.Python
