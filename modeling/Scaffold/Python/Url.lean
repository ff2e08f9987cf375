import Scaffold.Python.Text

namespace Scaffold.Python

-- `urllib.parse`. A text of ASCII characters that is quoted is given by its bytes.

-- The letters, the digits and `_.-~`.
def alwaysSafe (b : UInt8) : Bool :=
  (65 ≤ b.toNat ∧ b.toNat ≤ 90) ∨ (97 ≤ b.toNat ∧ b.toNat ≤ 122) ∨ (48 ≤ b.toNat ∧ b.toNat ≤ 57) ∨
    b.toNat = 95 ∨ b.toNat = 46 ∨ b.toNat = 45 ∨ b.toNat = 126

-- An upper-case hexadecimal digit.
def hexByte (n : Nat) : UInt8 := if n < 10 then .ofNat (48 + n) else .ofNat (55 + n)

def percent (b : UInt8) : List UInt8 := [37, hexByte (b.toNat / 16), hexByte (b.toNat % 16)]

-- `quote` with `safe="/"`
def quoteByte (b : UInt8) : List UInt8 := if alwaysSafe b ∨ b = 47 then [b] else percent b

-- `quote_plus`
def quotePlusByte (b : UInt8) : List UInt8 :=
  if b = 32 then [43] else if alwaysSafe b then [b] else percent b

-- A surrogate has no bytes: `UnicodeEncodeError`.
def quote (text : Text) : Option (List UInt8) := (encodeUtf8 text).map (·.flatMap quoteByte)

def quotePlus (text : Text) : Option (List UInt8) := (encodeUtf8 text).map (·.flatMap quotePlusByte)

def hexValueByte (b : UInt8) : Option Nat :=
  if 48 ≤ b.toNat ∧ b.toNat ≤ 57 then some (b.toNat - 48)
  else if 65 ≤ b.toNat ∧ b.toNat ≤ 70 then some (b.toNat - 55)
  else if 97 ≤ b.toNat ∧ b.toNat ≤ 102 then some (b.toNat - 87)
  else none

-- The byte of two hexadecimal digits at the head of a text.
def escapedByte : List UInt8 → Option UInt8
  | x :: y :: _ => do
      let high ← hexValueByte x
      let low ← hexValueByte y
      some (.ofNat (16 * high + low))
  | _ => none

-- `unquote_to_bytes`: a percent sign without two hexadecimal digits stays. The number counts the
-- digits that have been read already.
def unquoteSkipping : Nat → List UInt8 → List UInt8
  | _, [] => []
  | skip + 1, _ :: rest => unquoteSkipping skip rest
  | 0, b :: rest =>
      if b = 37 then
        match escapedByte rest with
        | some c => c :: unquoteSkipping 2 rest
        | none => b :: unquoteSkipping 0 rest
      else b :: unquoteSkipping 0 rest

def unquoteToBytes (bytes : List UInt8) : List UInt8 := unquoteSkipping 0 bytes

def pointOf (b : UInt8) : CodePoint := .ofNat 1114112 b.toNat

def asciiBytes (text : Text) : List UInt8 := text.map fun c => .ofNat c.val

def unquoteRun (run : Text) : Text := decodeReplace (unquoteToBytes (asciiBytes run))

-- The runs of ASCII characters are unquoted one by one.
def unquoteFrom (run : Text) : Text → Text
  | [] => unquoteRun run
  | c :: rest =>
      if c.val < 128 then unquoteFrom (run ++ [c]) rest else unquoteRun run ++ c :: unquoteFrom [] rest

def unquote (text : Text) : Text := if codePoint '%' ∈ text then unquoteFrom [] text else text

def replacePoint (old new : Char) (text : Text) : Text :=
  text.map fun c => if c = codePoint old then codePoint new else c

def unquotePlus (text : Text) : Text := unquote (replacePoint '+' ' ' text)

-- The parts of a text between the separators.
def splitOn (separator : CodePoint) : Text → List Text
  | [] => [[]]
  | c :: rest =>
      if c = separator then [] :: splitOn separator rest
      else
        match splitOn separator rest with
        | part :: parts => (c :: part) :: parts
        | [] => [[c]]

-- `str.partition("=")`: the parts around the first sign.
def partitionEquals (text : Text) : Text × Text :=
  (text.takeWhile (· ≠ codePoint '='), (text.dropWhile (· ≠ codePoint '=')).drop 1)

-- `parse_qsl` with `keep_blank_values=True`
def parseQsl (text : Text) : List (Text × Text) :=
  ((splitOn (codePoint '&') text).filter (· ≠ [])).map fun field =>
    (unquotePlus (partitionEquals field).1, unquotePlus (partitionEquals field).2)

-- A test of all bytes.
theorem byte_forall {p : UInt8 → Bool} (h : (List.range 256).all (fun n => p (.ofNat n)) = true)
    (b : UInt8) :
    p b = true := by
  have hb := List.all_eq_true.mp h b.toNat (List.mem_range.mpr b.toNat_lt)
  rwa [UInt8.ofNat_toNat] at hb

section Quoting

theorem hexByte_value {n : Nat} (h : n < 16) : hexValueByte (hexByte n) = some n := by
  have hall : ∀ a : Fin 16, hexValueByte (hexByte a) = some a.val := by decide
  exact hall ⟨n, h⟩

theorem unquoteSkipping_percent (b : UInt8) (rest : List UInt8) :
    unquoteSkipping 0 (percent b ++ rest) = b :: unquoteSkipping 0 rest := by
  have hb := b.toNat_lt
  have hbyte : UInt8.ofNat (16 * (b.toNat / 16) + b.toNat % 16) = b := by
    rw [Nat.div_add_mod]
    exact UInt8.ofNat_toNat
  have hescaped : escapedByte (hexByte (b.toNat / 16) :: hexByte (b.toNat % 16) :: rest) = some b := by
    rw [escapedByte, hexByte_value (by omega), hexByte_value (by omega)]
    exact congrArg some hbyte
  unfold percent
  rw [List.cons_append, List.cons_append, List.cons_append, List.nil_append, unquoteSkipping,
    if_pos rfl, hescaped]
  rfl

theorem unquoteSkipping_plain {b : UInt8} (h : b ≠ 37) (rest : List UInt8) :
    unquoteSkipping 0 (b :: rest) = b :: unquoteSkipping 0 rest := by
  rw [unquoteSkipping, if_neg h]

theorem safe_ne_percent {b : UInt8} (h : alwaysSafe b = true) : b ≠ 37 := by
  rintro rfl
  revert h
  decide

-- What is quoted is read back as the bytes.
theorem unquote_quote (bytes : List UInt8) : unquoteToBytes (bytes.flatMap quoteByte) = bytes := by
  unfold unquoteToBytes
  induction bytes with
  | nil => rfl
  | cons b bytes ih =>
      rw [List.flatMap_cons, quoteByte]
      split_ifs with hsafe
      · have hne : b ≠ 37 := by
          obtain hsafe | rfl := hsafe
          · exact safe_ne_percent hsafe
          · decide
        rw [List.singleton_append, unquoteSkipping_plain hne, ih]
      · rw [unquoteSkipping_percent, ih]

-- In a form a blank is a plus sign.
theorem unquote_quotePlus (bytes : List UInt8) :
    unquoteToBytes ((bytes.flatMap quotePlusByte).map fun b => if b = 43 then 32 else b) = bytes := by
  have hbyte : ∀ b : UInt8, ((quotePlusByte b).map (fun c => if c = 43 then (32 : UInt8) else c) ==
      if b = 32 ∨ alwaysSafe b then [b] else percent b) = true := byte_forall (by decide +kernel)
  unfold unquoteToBytes
  induction bytes with
  | nil => rfl
  | cons b bytes ih =>
      rw [List.flatMap_cons, List.map_append, eq_of_beq (hbyte b)]
      split_ifs with hsafe
      · have hne : b ≠ 37 := by
          obtain rfl | hsafe := hsafe
          · decide
          · exact safe_ne_percent hsafe
        rw [List.singleton_append, unquoteSkipping_plain hne, ih]
      · rw [unquoteSkipping_percent, ih]

end Quoting

section Ascii

@[simp] theorem pointOf_val (b : UInt8) : (pointOf b).val = b.toNat :=
  Nat.mod_eq_of_lt (Nat.lt_trans b.toNat_lt (by decide))

theorem pointOf_codePoint {b : UInt8} {c : Char} : pointOf b = codePoint c ↔ b.toNat = c.toNat := by
  rw [Fin.ext_iff, pointOf_val]
  rfl

@[simp] theorem asciiBytes_map (bytes : List UInt8) : asciiBytes (bytes.map pointOf) = bytes := by
  unfold asciiBytes
  rw [List.map_map]
  have hbyte : ∀ b : UInt8, UInt8.ofNat (pointOf b).val = b :=
    fun b => by rw [pointOf_val, UInt8.ofNat_toNat]
  exact (List.map_congr_left fun b _ => hbyte b).trans (List.map_id bytes)

variable {bytes : List UInt8} (h : ∀ b ∈ bytes, b.toNat < 128)

include h

theorem encodeUtf8_ascii : encodeUtf8 (bytes.map pointOf) = some bytes := by
  refine encodeUtf8_eq_some.mpr ⟨fun c hc => ?_, ?_⟩
  · obtain ⟨b, hb, rfl⟩ := List.mem_map.mp hc
    have hsmall := h b hb
    rw [isSurrogate, pointOf_val]
    exact decide_eq_false (by omega)
  · induction bytes with
    | nil => rfl
    | cons b bytes ih =>
        have hfirst : encodePoint (pointOf b) = [b] := by
          have hsmall := h b List.mem_cons_self
          rw [encodePoint, pointOf_val, if_pos hsmall, UInt8.ofNat_toNat]
        rw [List.map_cons, List.flatMap_cons, hfirst, List.singleton_append]
        exact congrArg (b :: ·) (ih fun c hc => h c (List.mem_cons_of_mem b hc))

omit h in
theorem unquoteFrom_ascii {text : Text} (h : ∀ c ∈ text, c.val < 128) (run : Text) :
    unquoteFrom run text = unquoteRun (run ++ text) := by
  induction text generalizing run with
  | nil => rw [unquoteFrom, List.append_nil]
  | cons c text ih =>
      rw [unquoteFrom, if_pos (h c List.mem_cons_self), ih (fun d hd => h d (List.mem_cons_of_mem c hd)),
        List.append_assoc, List.singleton_append]

omit h in
theorem unquoteToBytes_plain (hplain : ∀ b ∈ bytes, b ≠ 37) : unquoteToBytes bytes = bytes := by
  unfold unquoteToBytes
  induction bytes with
  | nil => rfl
  | cons b bytes ih =>
      rw [unquoteSkipping_plain (hplain b List.mem_cons_self), ih fun c hc =>
        hplain c (List.mem_cons_of_mem b hc)]

-- An ASCII text is unquoted as a whole.
theorem unquote_ascii : unquote (bytes.map pointOf) = decodeReplace (unquoteToBytes bytes) := by
  have hpoints : ∀ c ∈ bytes.map pointOf, c.val < 128 := by
    intro c hc
    obtain ⟨b, hb, rfl⟩ := List.mem_map.mp hc
    rw [pointOf_val]
    exact h b hb
  unfold unquote
  split_ifs with hpercent
  · rw [unquoteFrom_ascii hpoints, List.nil_append, unquoteRun, asciiBytes_map]
  · have hplain : ∀ b ∈ bytes, b ≠ 37 := by
      rintro b hb rfl
      exact hpercent (List.mem_map.mpr ⟨37, hb, rfl⟩)
    rw [unquoteToBytes_plain hplain, decodeReplace_encode (encodeUtf8_ascii h)]

end Ascii

section Forms

theorem quotePlus_bytes (b : UInt8) : ∀ c ∈ quotePlusByte b, c.toNat < 128 ∧ c ≠ 38 ∧ c ≠ 61 := by
  have hall : ∀ b : UInt8, ((quotePlusByte b).all fun c => c.toNat < 128 && c != 38 && c != 61) = true :=
    byte_forall (by decide +kernel)
  intro c hc
  have hc := List.all_eq_true.mp (hall b) c hc
  simp only [Bool.and_eq_true, decide_eq_true_eq, bne_iff_ne] at hc
  exact ⟨hc.1.1, hc.1.2, hc.2⟩

theorem quotePlus_spec {text : Text} {quoted : List UInt8} (h : quotePlus text = some quoted) :
    (∀ c ∈ quoted, c.toNat < 128 ∧ c ≠ 38 ∧ c ≠ 61) ∧ unquotePlus (quoted.map pointOf) = text := by
  obtain ⟨bytes, hbytes, rfl⟩ := Option.map_eq_some_iff.mp h
  have hquoted : ∀ c ∈ bytes.flatMap quotePlusByte, c.toNat < 128 ∧ c ≠ 38 ∧ c ≠ 61 := by
    intro c hc
    obtain ⟨b, -, hb⟩ := List.mem_flatMap.mp hc
    exact quotePlus_bytes b c hb
  refine ⟨hquoted, ?_⟩
  have hreplace : ∀ quoted : List UInt8, replacePoint '+' ' ' (quoted.map pointOf) =
      (quoted.map fun b => if b = 43 then 32 else b).map pointOf := by
    intro quoted
    unfold replacePoint
    rw [List.map_map, List.map_map]
    refine List.map_congr_left fun b _ => ?_
    have hplus : pointOf b = codePoint '+' ↔ b = 43 := by
      rw [pointOf_codePoint, ← UInt8.toNat_inj]
      rfl
    simp only [Function.comp_apply, hplus]
    split_ifs <;> rfl
  have hascii : ∀ c ∈ (bytes.flatMap quotePlusByte).map fun b => if b = 43 then (32 : UInt8) else b,
    c.toNat < 128 := by
    intro c hc
    obtain ⟨b, hb, rfl⟩ := List.mem_map.mp hc
    split_ifs
    · decide
    · exact (hquoted b hb).1
  rw [unquotePlus, hreplace, unquote_ascii hascii, unquote_quotePlus, decodeReplace_encode hbytes]

theorem splitOn_last {separator : CodePoint} {part : Text} (h : separator ∉ part) :
    splitOn separator part = [part] := by
  induction part with
  | nil => rfl
  | cons c part ih =>
      have hne : c ≠ separator := fun heq => h (heq ▸ List.mem_cons_self)
      rw [splitOn, if_neg hne, ih fun hmem => h (List.mem_cons_of_mem c hmem)]

theorem splitOn_append {separator : CodePoint} {part : Text} (h : separator ∉ part) (rest : Text) :
    splitOn separator (part ++ separator :: rest) = part :: splitOn separator rest := by
  induction part with
  | nil => rw [List.nil_append, splitOn, if_pos rfl]
  | cons c part ih =>
      have hne : c ≠ separator := fun heq => h (heq ▸ List.mem_cons_self)
      rw [List.cons_append, splitOn, if_neg hne, ih fun hmem => h (List.mem_cons_of_mem c hmem)]

theorem partitionEquals_append {name : Text} (h : codePoint '=' ∉ name) (value : Text) :
    partitionEquals (name ++ codePoint '=' :: value) = (name, value) := by
  have hname : ∀ c ∈ name, decide (c ≠ codePoint '=') = true := by
    intro c hc
    refine decide_eq_true ?_
    rintro rfl
    exact h hc
  unfold partitionEquals
  rw [List.takeWhile_append_of_pos hname, List.dropWhile_append_of_pos hname]
  simp

end Forms

end Scaffold.Python
