import Mathlib.Algebra.GroupWithZero.Nat
import Mathlib.Data.List.Basic
import Mathlib.Tactic.Common

namespace Scaffold.Python

-- A `str` is a list of code points, which may be lone surrogates.
abbrev CodePoint := Fin 1114112

instance instNeZeroCodePoint : NeZero 1114112 := ⟨by decide⟩

abbrev Text := List CodePoint

def isSurrogate (c : CodePoint) : Bool := 55296 ≤ c.val ∧ c.val < 57344

def codePoint (c : Char) : CodePoint := ⟨c.toNat, by
  have hvalid := c.valid
  rcases hvalid with h | ⟨-, h⟩
  · exact Nat.lt_of_lt_of_le h (by decide)
  · exact h⟩

def textOf (text : String) : Text := text.toList.map codePoint

-- The bytes of a code point in UTF-8.
def encodePoint (c : CodePoint) : List UInt8 :=
  let n := c.val
  if n < 128 then [.ofNat n]
  else if n < 2048 then [.ofNat (192 + n / 64), .ofNat (128 + n % 64)]
  else if n < 65536 then [.ofNat (224 + n / 4096), .ofNat (128 + n / 64 % 64), .ofNat (128 + n % 64)]
  else [.ofNat (240 + n / 262144), .ofNat (128 + n / 4096 % 64), .ofNat (128 + n / 64 % 64),
    .ofNat (128 + n % 64)]

-- `str.encode("utf-8")`, which raises `UnicodeEncodeError` at a surrogate.
def encodeUtf8 (text : Text) : Option (List UInt8) :=
  if text.any isSurrogate then none else some (text.flatMap encodePoint)

-- The rest of a code point, whose next byte lies in a range: the value, or nothing after as many
-- bytes as could have belonged to it.
def decodeTail : Nat → Nat → Nat → Nat → List UInt8 → Option Nat × List UInt8
  | 0, _, _, n, bytes => (some n, bytes)
  | _ + 1, _, _, _, [] => (none, [])
  | count + 1, low, high, n, b :: rest =>
      if low ≤ b.toNat ∧ b.toNat ≤ high then decodeTail count 128 191 (n * 64 + (b.toNat - 128)) rest
      else (none, b :: rest)

def decodeStep (b : UInt8) (rest : List UInt8) : Option Nat × List UInt8 :=
  let n := b.toNat
  if n < 128 then (some n, rest)
  else if 194 ≤ n ∧ n ≤ 223 then decodeTail 1 128 191 (n - 192) rest
  else if n = 224 then decodeTail 2 160 191 0 rest
  else if n = 237 then decodeTail 2 128 159 13 rest
  else if 225 ≤ n ∧ n ≤ 239 then decodeTail 2 128 191 (n - 224) rest
  else if n = 240 then decodeTail 3 144 191 0 rest
  else if n = 244 then decodeTail 3 128 143 4 rest
  else if 241 ≤ n ∧ n ≤ 243 then decodeTail 3 128 191 (n - 240) rest
  else (none, rest)

-- The code points of a byte string, with `none` for every place that is not UTF-8.
def decodePoints : Nat → List UInt8 → List (Option CodePoint)
  | 0, _ => []
  | _, [] => []
  | fuel + 1, b :: rest =>
      let (n, rest) := decodeStep b rest
      n.map (Fin.ofNat 1114112) :: decodePoints fuel rest

-- `bytes.decode("utf-8")`
def decodeUtf8 (bytes : List UInt8) : Option Text :=
  (decodePoints bytes.length bytes).mapM id

-- `bytes.decode("utf-8", "replace")`
def decodeReplace (bytes : List UInt8) : Text :=
  (decodePoints bytes.length bytes).map (·.getD 65533)

section Utf8

theorem toNat_byte {n : Nat} (h : n < 256) : (UInt8.ofNat n).toNat = n :=
  UInt8.toNat_ofNat_of_lt h

theorem decodeTail_cons {count low high n m : Nat} {rest : List UInt8} (hlow : low ≤ 128 + m)
    (hhigh : 128 + m ≤ high) (hbyte : 128 + m < 256) :
    decodeTail (count + 1) low high n (.ofNat (128 + m) :: rest) =
      decodeTail count 128 191 (n * 64 + m) rest := by
  rw [decodeTail, toNat_byte hbyte, if_pos ⟨hlow, hhigh⟩, Nat.add_sub_cancel_left]

-- The bytes of a code point are read as that code point, whatever follows.
theorem decodeStep_encodePoint {c : CodePoint} (hc : isSurrogate c = false) (rest : List UInt8) :
    ∃ b tail, encodePoint c = b :: tail ∧ decodeStep b (tail ++ rest) = (some c.val, rest) := by
  have hplane : c.val < 1114112 := c.isLt
  have hplain : ¬ (55296 ≤ c.val ∧ c.val < 57344) := by simpa [isSurrogate] using hc
  unfold encodePoint
  dsimp only
  split_ifs with hone htwo hthree
  · refine ⟨_, _, rfl, ?_⟩
    rw [decodeStep, toNat_byte (by omega), if_pos hone]
    rfl
  · refine ⟨_, _, rfl, ?_⟩
    rw [decodeStep, toNat_byte (by omega), if_neg (by omega), if_pos (by omega)]
    rw [List.cons_append, List.nil_append, decodeTail_cons (by omega) (by omega) (by omega), decodeTail]
    rw [show (192 + c.val / 64 - 192) * 64 + c.val % 64 = c.val by omega]
  · refine ⟨_, _, rfl, ?_⟩
    have htail : ∀ low high n, low ≤ 128 + c.val / 64 % 64 → 128 + c.val / 64 % 64 ≤ high →
      n = c.val / 4096 →
        decodeTail 2 low high n ([.ofNat (128 + c.val / 64 % 64), .ofNat (128 + c.val % 64)] ++ rest) =
          (some c.val, rest) := by
      intro low high n hlow hhigh hn
      rw [List.cons_append, List.cons_append, List.nil_append, decodeTail_cons hlow hhigh (by omega),
        decodeTail_cons (by omega) (by omega) (by omega), decodeTail]
      rw [show (n * 64 + c.val / 64 % 64) * 64 + c.val % 64 = c.val by omega]
    rw [decodeStep, toNat_byte (by omega), if_neg (by omega), if_neg (by omega)]
    split_ifs
    · exact htail _ _ _ (by omega) (by omega) (by omega)
    · exact htail _ _ _ (by omega) (by omega) (by omega)
    · exact htail _ _ _ (by omega) (by omega) (by omega)
    all_goals omega
  · refine ⟨_, _, rfl, ?_⟩
    have htail : ∀ low high n, low ≤ 128 + c.val / 4096 % 64 → 128 + c.val / 4096 % 64 ≤ high →
        n = c.val / 262144 →
        decodeTail 3 low high n ([.ofNat (128 + c.val / 4096 % 64), .ofNat (128 + c.val / 64 % 64),
          .ofNat (128 + c.val % 64)] ++ rest) = (some c.val, rest) := by
      intro low high n hlow hhigh hn
      rw [List.cons_append, List.cons_append, List.cons_append, List.nil_append,
        decodeTail_cons hlow hhigh (by omega), decodeTail_cons (by omega) (by omega) (by omega),
        decodeTail_cons (by omega) (by omega) (by omega), decodeTail]
      rw [show ((n * 64 + c.val / 4096 % 64) * 64 + c.val / 64 % 64) * 64 + c.val % 64 = c.val by omega]
    rw [decodeStep, toNat_byte (by omega), if_neg (by omega), if_neg (by omega), if_neg (by omega),
      if_neg (by omega), if_neg (by omega)]
    split_ifs
    · exact htail _ _ _ (by omega) (by omega) (by omega)
    · exact htail _ _ _ (by omega) (by omega) (by omega)
    · exact htail _ _ _ (by omega) (by omega) (by omega)
    all_goals omega

theorem decodePoints_encode {text : Text} (h : ∀ c ∈ text, isSurrogate c = false) {fuel : Nat}
    (hfuel : (text.flatMap encodePoint).length ≤ fuel) :
    decodePoints fuel (text.flatMap encodePoint) = text.map some := by
  induction text generalizing fuel with
  | nil => cases fuel <;> rfl
  | cons c text ih =>
      obtain ⟨b, tail, hbytes, hstep⟩ := decodeStep_encodePoint (h c List.mem_cons_self)
        (text.flatMap encodePoint)
      rw [List.flatMap_cons, hbytes, List.cons_append] at hfuel ⊢
      rw [List.length_cons, List.length_append] at hfuel
      obtain ⟨fuel, rfl⟩ := Nat.exists_eq_add_one_of_ne_zero (by omega : fuel ≠ 0)
      have hrest := ih (fun d hd => h d (List.mem_cons_of_mem c hd)) (by omega : _ ≤ fuel)
      rw [decodePoints, hstep]
      dsimp only
      rw [hrest, List.map_cons, Option.map_some]
      have hpoint : Fin.ofNat 1114112 c.val = c := Fin.ext (Nat.mod_eq_of_lt c.isLt)
      rw [hpoint]

theorem encodeUtf8_eq_some {text : Text} {bytes : List UInt8} : encodeUtf8 text = some bytes ↔
    (∀ c ∈ text, isSurrogate c = false) ∧ bytes = text.flatMap encodePoint := by
  unfold encodeUtf8
  split_ifs with h
  · simp only [false_iff]
    rintro ⟨hnone, -⟩
    obtain ⟨c, hc, hs⟩ := List.any_eq_true.mp h
    rw [hnone c hc] at hs
    cases hs
  · simp only [Option.some.injEq]
    constructor
    · rintro rfl
      refine ⟨fun c hc => ?_, rfl⟩
      by_contra hs
      exact h (List.any_eq_true.mpr ⟨c, hc, by simpa using hs⟩)
    · rintro ⟨-, rfl⟩
      rfl

theorem encodeUtf8_eq_none {text : Text} : encodeUtf8 text = none ↔ ∃ c ∈ text, isSurrogate c = true := by
  unfold encodeUtf8
  split_ifs with h
  · simpa using h
  · simpa using h

theorem decodeReplace_encode {text : Text} {bytes : List UInt8} (h : encodeUtf8 text = some bytes) :
    decodeReplace bytes = text := by
  obtain ⟨hplain, rfl⟩ := encodeUtf8_eq_some.mp h
  rw [decodeReplace, decodePoints_encode hplain (Nat.le_refl _), List.map_map]
  exact (List.map_congr_left fun c _ => rfl).trans (List.map_id text)

theorem mapM_some {α : Type} (items : List α) : (items.map some).mapM id = some items := by
  induction items with
  | nil => rfl
  | cons first items ih =>
      rw [List.map_cons, List.mapM_cons, ih, id, Option.bind_eq_bind, Option.bind_some, Option.bind_eq_bind,
      Option.bind_some, Option.pure_def]

theorem decodeUtf8_encode {text : Text} {bytes : List UInt8} (h : encodeUtf8 text = some bytes) :
    decodeUtf8 bytes = some text := by
  obtain ⟨hplain, rfl⟩ := encodeUtf8_eq_some.mp h
  rw [decodeUtf8, decodePoints_encode hplain (Nat.le_refl _), mapM_some]

end Utf8

end Scaffold.Python
