import Scaffold.Http.QueryParam

namespace Scaffold.Http

open Python

section Alphabet

-- The characters of Base64 without the slash.
def isBase64Letter (c : Char) : Bool := c.isAlphanum || c = '+'

theorem isBase64Letter_char {n : Nat} (h : n < 63) : isBase64Letter (base64Char n) = true := by
  have hall : ∀ a : Fin 63, isBase64Letter (base64Char a) = true := by decide
  exact hall ⟨n, h⟩

theorem isBase64Letter_ascii {c : Char} (h : isBase64Letter c = true) : c.toNat < 128 := by
  delta isBase64Letter Char.isAlphanum Char.isAlpha Char.isUpper Char.isLower Char.isDigit at h
  simp only [Bool.or_eq_true, Bool.and_eq_true, decide_eq_true_eq] at h
  obtain ((⟨-, hz⟩ | ⟨-, hz⟩) | ⟨-, hz⟩) | rfl := h
  · exact Nat.lt_of_le_of_lt (UInt32.le_iff_toNat_le.mp hz) (by decide)
  · exact Nat.lt_of_le_of_lt (UInt32.le_iff_toNat_le.mp hz) (by decide)
  · exact Nat.lt_of_le_of_lt (UInt32.le_iff_toNat_le.mp hz) (by decide)
  · decide

-- The bytes of a quoted text: six bits of them in a row are never all ones.
def isQuotedByte (b : UInt8) : Bool := b.toNat < 127 ∧ b.toNat ≠ 63

theorem isQuotedByte_quoteByte (b : UInt8) : ∀ c ∈ quoteByte b, isQuotedByte c = true := by
  have hall : ∀ b : UInt8, (quoteByte b).all isQuotedByte = true := byte_forall (by decide +kernel)
  exact List.all_eq_true.mp (hall b)

-- Base64 is its letters and the padding to a multiple of four.
theorem b64encode_letters {bytes : List UInt8} (h : ∀ b ∈ bytes, isQuotedByte b = true) :
    ∃ letters padding, b64encode bytes = letters ++ List.replicate padding '=' ∧
      (∀ c ∈ letters, isBase64Letter c = true) ∧ (letters.length + padding) % 4 = 0 ∧ padding < 4 ∧
      (bytes ≠ [] → letters ≠ []) := by
  have hbyte : ∀ b : UInt8, isQuotedByte b = true → b.toNat < 127 ∧ b.toNat ≠ 63 := by
    intro b hb
    simpa [isQuotedByte] using hb
  induction bytes using b64encode.induct with
  | case1 =>
      exact ⟨[], 0, rfl, fun _ hc => absurd hc List.not_mem_nil, rfl, by decide, fun hne => absurd rfl hne⟩
  | case2 x =>
      have hx := hbyte x (h x (by simp))
      refine ⟨[base64Char (x.toNat / 4), base64Char (x.toNat % 4 * 16)], 2, rfl, ?_, by simp,
        by decide, fun _ => by simp⟩
      intro c hc
      simp only [List.mem_cons, List.not_mem_nil, or_false] at hc
      obtain rfl | rfl := hc <;> exact isBase64Letter_char (by omega)
  | case3 x y =>
      have hx := hbyte x (h x (by simp))
      have hy := hbyte y (h y (by simp))
      refine ⟨[base64Char (x.toNat / 4), base64Char (x.toNat % 4 * 16 + y.toNat / 16),
        base64Char (y.toNat % 16 * 4)], 1, rfl, ?_, by simp, by decide, fun _ => by simp⟩
      intro c hc
      simp only [List.mem_cons, List.not_mem_nil, or_false] at hc
      obtain rfl | rfl | rfl := hc <;> exact isBase64Letter_char (by omega)
  | case4 x y z rest ih =>
      have hx := hbyte x (h x (by simp))
      have hy := hbyte y (h y (by simp))
      have hz := hbyte z (h z (by simp))
      obtain ⟨letters, padding, hrest, hletters, hlength, hpadding, -⟩ :=
        ih fun b hb => h b (List.mem_cons_of_mem x (List.mem_cons_of_mem y (List.mem_cons_of_mem z hb)))
      refine ⟨base64Char (x.toNat / 4) :: base64Char (x.toNat % 4 * 16 + y.toNat / 16) ::
        base64Char (y.toNat % 16 * 4 + z.toNat / 64) :: base64Char (z.toNat % 64) :: letters,
        padding, ?_, ?_, ?_,
        hpadding, fun _ => by simp⟩
      · rw [b64encode, hrest]
        rfl
      · intro c hc
        simp only [List.mem_cons] at hc
        obtain rfl | rfl | rfl | rfl | hc := hc
        · exact isBase64Letter_char (by omega)
        · exact isBase64Letter_char (by omega)
        · exact isBase64Letter_char (by omega)
        · exact isBase64Letter_char (by omega)
        · exact hletters c hc
      · simp only [List.length_cons]
        omega

theorem rstripPadding_append {letters : List Char} (h : '=' ∉ letters) (padding : Nat) :
    rstripPadding (letters ++ List.replicate padding '=') = letters := by
  have hdrop : letters.reverse.dropWhile (· = '=') = letters.reverse := by
    cases hlist : letters.reverse with
    | nil => rfl
    | cons c rest =>
        have hc : c ≠ '=' := by
          rintro rfl
          exact h (List.mem_reverse.mp (hlist ▸ List.mem_cons_self))
        rw [List.dropWhile_cons_of_neg (by simpa using hc)]
  unfold rstripPadding
  rw [List.reverse_append, List.reverse_replicate, List.dropWhile_append_of_pos (by simp), hdrop,
    List.reverse_reverse]

end Alphabet

section Restoring

variable {letters : List Char} (h : ∀ c ∈ letters, isBase64Letter c = true)

include h

theorem not_mem_letters {c : Char} (hc : isBase64Letter c = false) : codePoint c ∉ pointsOf letters := by
  intro hmem
  obtain ⟨d, hd, heq⟩ := List.mem_map.mp hmem
  have hchar : Char.ofNat d.toNat = Char.ofNat c.toNat :=
    congrArg (fun p : CodePoint => Char.ofNat p.val) heq
  rw [Char.ofNat_toNat, Char.ofNat_toNat] at hchar
  rw [hchar] at hd
  rw [h c hd] at hc
  cases hc

-- A plus sign becomes a blank in the query and a plus sign again.
theorem replacePoint_letters :
    replacePoint ' ' '+' (replacePoint '+' ' ' (pointsOf letters)) = pointsOf letters := by
  have hblank := not_mem_letters h (c := ' ') rfl
  unfold replacePoint
  rw [List.map_map]
  refine (List.map_congr_left fun c hc => ?_).trans (List.map_id _)
  have hne : c ≠ codePoint ' ' := by
    rintro rfl
    exact hblank hc
  simp only [Function.comp_apply, id]
  split_ifs with hplus hagain
  · exact hplus.symm
  · exact absurd rfl hagain
  · rfl

theorem unquotePlus_letters : unquotePlus (pointsOf letters) = replacePoint '+' ' ' (pointsOf letters) := by
  have hpercent : codePoint '%' ∉ replacePoint '+' ' ' (pointsOf letters) := by
    intro hmem
    obtain ⟨c, hc, heq⟩ := List.mem_map.mp hmem
    split_ifs at heq with hplus
    · revert heq
      decide
    · subst heq
      exact not_mem_letters h (c := '%') rfl hc
  rw [unquotePlus, unquote, if_neg hpercent]

theorem decodeBase64_letters {padding : Nat} (hlength : (letters.length + padding) % 4 = 0)
    (hpadding : padding < 4) :
    decodeBase64 (restorePadding (pointsOf letters)) =
      b64decode (letters ++ List.replicate padding '=') := by
  have hrestored :
    restorePadding (pointsOf letters) = pointsOf (letters ++ List.replicate padding '=') := by
    have hsize : (pointsOf letters).length = letters.length := List.length_map codePoint
    have hpoints : pointsOf (letters ++ List.replicate padding '=') =
        pointsOf letters ++ List.replicate padding (codePoint '=') := by
      unfold pointsOf
      rw [List.map_append, List.map_replicate]
    unfold restorePadding
    rw [hsize, hpoints]
    split_ifs with hrest
    · rw [show 4 - letters.length % 4 = padding by omega]
    · rw [show padding = 0 by omega, List.replicate_zero, List.append_nil]
  have hascii : (pointsOf (letters ++ List.replicate padding '=')).all (fun c => c.val < 128) = true := by
    refine List.all_eq_true.mpr fun p hp => ?_
    obtain ⟨c, hc, rfl⟩ := List.mem_map.mp hp
    obtain hc | hc := List.mem_append.mp hc
    · exact decide_eq_true (isBase64Letter_ascii (h c hc))
    · rw [List.eq_of_mem_replicate hc]
      rfl
  rw [hrestored, decodeBase64, if_pos hascii, charsOf_pointsOf]

end Restoring

theorem compactJson_head (payload : Payload) : ∃ rest, compactJson payload = codePoint '\x7b' :: rest := by
  unfold compactJson
  rw [dumps, List.cons_append]
  exact ⟨_, rfl⟩

-- What is encoded: the bytes of the quoted JSON, and that they are read back as the JSON.
theorem quote_reads {text : Text} (h : plainText text = true) : ∃ quoted, quote text = some quoted ∧
    (∀ b ∈ quoted, isQuotedByte b = true) ∧ (decodeUtf8 quoted).map unquote = some text ∧
    (text ≠ [] → quoted ≠ []) := by
  have hbytes : encodeUtf8 text = some (text.flatMap encodePoint) :=
    encodeUtf8_eq_some.mpr ⟨plainText_iff.mp h, rfl⟩
  have hquoted : ∀ b ∈ (text.flatMap encodePoint).flatMap quoteByte, isQuotedByte b = true := by
    intro b hb
    obtain ⟨a, -, ha⟩ := List.mem_flatMap.mp hb
    exact isQuotedByte_quoteByte a b ha
  have hascii : ∀ b ∈ (text.flatMap encodePoint).flatMap quoteByte, b.toNat < 128 := by
    intro b hb
    have hsmall : b.toNat < 127 ∧ b.toNat ≠ 63 := by simpa [isQuotedByte] using hquoted b hb
    omega
  have hreads : (decodeUtf8 ((text.flatMap encodePoint).flatMap quoteByte)).map unquote = some text := by
    rw [decodeUtf8_encode (encodeUtf8_ascii hascii), Option.map_some, unquote_ascii hascii, unquote_quote,
      decodeReplace_encode hbytes]
  refine ⟨_, by rw [quote, hbytes, Option.map_some], hquoted, hreads, ?_⟩
  intro hne hnil
  rw [hnil] at hreads
  exact hne (Option.some.inj hreads).symm

-- `json.loads` gives back what `json.dumps` has written of the payload.
theorem query_param_roundtrip {loads : Text → Except JsonError JsonValue} {payload : Payload}
    (hplain : plainFields payload = true) (hloads : loads (compactJson payload) = .ok (.dict payload)) :
    ∃ encoded, encodeQueryParam payload = some encoded ∧ (∀ c ∈ encoded, c.isAlphanum = true ∨ c = '+') ∧
      ∀ name : Text, codePoint '&' ∉ name → codePoint '=' ∉ name →
        ∃ value, parseQsl (name ++ codePoint '=' :: pointsOf encoded) = [(unquotePlus name, value)] ∧
          decodeQueryParam loads value = some payload := by
  have hseparator : ∀ text : String, plainText (textOf text) = true :=
    fun text => plainText_pointsOf text.toList
  have hjson : plainText (compactJson payload) = true :=
    plainText_dumps (hseparator ",") (hseparator ":")
      (show JsonValue.plain (.dict payload) = true from hplain)
  obtain ⟨quoted, hquote, hquoted, hreads, hne⟩ := quote_reads hjson
  obtain ⟨letters, padding, hencoded, hletters, hlength, hpadding, hsome⟩ := b64encode_letters hquoted
  have hpad : '=' ∉ letters := by
    intro hmem
    cases hletters '=' hmem
  have hbase64 := decodeBase64_letters hletters hlength hpadding
  rw [← hencoded, b64decode_b64encode] at hbase64
  obtain ⟨decoded, hdecoded, hunquoted⟩ := Option.map_eq_some_iff.mp hreads
  have hfilled : letters ≠ [] := by
    obtain ⟨rest, hrest⟩ := compactJson_head payload
    exact hsome (hne (hrest ▸ List.cons_ne_nil _ _))
  refine ⟨letters, ?_, fun c hc => by simpa [isBase64Letter] using hletters c hc, ?_⟩
  · rw [encodeQueryParam, hquote, Option.map_some, hencoded, rstripPadding_append hpad]
  · intro name hampersand hequals
    refine ⟨unquotePlus (pointsOf letters), ?_, ?_⟩
    · have hfield : codePoint '&' ∉ name ++ codePoint '=' :: pointsOf letters := by
        have hvalue := not_mem_letters hletters (c := '&') rfl
        simp only [List.mem_append, List.mem_cons, not_or]
        exact ⟨hampersand, by decide, hvalue⟩
      rw [parseQsl, splitOn_last hfield]
      simp [partitionEquals_append hequals]
    · have hvalue : unquotePlus (pointsOf letters) ≠ [] := by
        rw [unquotePlus_letters hletters]
        simpa [replacePoint, pointsOf] using hfilled
      rw [decodeQueryParam, if_neg hvalue, unquotePlus_letters hletters,
        replacePoint_letters hletters, hbase64,
        Option.bind_some, hdecoded]
      dsimp only
      rw [hunquoted, hloads]

-- A payload with nested values, and a parser that knows its text.
def nestedPayload : Payload :=
  [(textOf "名", .str (textOf "a+b/~?")), (textOf "tags", .list [.int (-7), .bool true, .null]),
    (textOf "in", .dict [(textOf "x", .str [])])]

def nestedLoads (text : Text) : Except JsonError JsonValue :=
  if text = compactJson nestedPayload then .ok (.dict nestedPayload) else .error .value

theorem query_param_roundtrip_nested :
    ∃ encoded, encodeQueryParam nestedPayload = some encoded ∧
      (∀ c ∈ encoded, c.isAlphanum = true ∨ c = '+') ∧
      ∀ name : Text, codePoint '&' ∉ name → codePoint '=' ∉ name →
        ∃ value, parseQsl (name ++ codePoint '=' :: pointsOf encoded) = [(unquotePlus name, value)] ∧
          decodeQueryParam nestedLoads value = some nestedPayload :=
  query_param_roundtrip (by decide) (if_pos rfl)

end Scaffold.Http
