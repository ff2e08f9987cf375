import Scaffold.Database.Identifiers

namespace Scaffold.Database

open Positional

theorem crockford_lt : ∀ i j, i < j → j < 32 → crockford i < crockford j := by
  have hall : ∀ j : Fin 32, ∀ i : Fin j, crockford i < crockford j := by decide
  intro i j hij hj
  exact hall ⟨j, hj⟩ ⟨i, hij⟩

theorem crockford_mem : ∀ i, i < 32 → crockford i ∈ crockfordBase32.toList ∧
    crockfordBase32.toList.idxOf (crockford i) = i := by
  have hall : ∀ i : Fin 32, crockford i ∈ crockfordBase32.toList ∧
      crockfordBase32.toList.idxOf (crockford i) = i := by decide
  intro i hi
  exact hall ⟨i, hi⟩

-- The loop writes the digits of the number in front of the places it has passed.
theorem encodeLoop_eq (index n : Nat) (encoded : List Char) (h : index ≤ encoded.length) :
    encodeLoop index n encoded = (digits 32 index n).map crockford ++ encoded.drop index := by
  induction index generalizing n encoded with
  | zero => rfl
  | succ index ih =>
      have hshift : n >>> 5 = n / 32 := Nat.shiftRight_eq_div_pow n 5
      have hmask : n &&& 31 = n % 32 := Nat.and_two_pow_sub_one_eq_mod n 5
      have hlast : (encoded.set index (crockford (n % 32))).drop index =
          crockford (n % 32) :: encoded.drop (index + 1) := by
        rw [List.drop_eq_getElem_cons (by rw [List.length_set]; omega), List.getElem_set_self,
          List.drop_set_of_lt (Nat.lt_succ_self index)]
      rw [encodeLoop, ih _ _ (by rw [List.length_set]; omega), hshift, hmask, hlast, digits,
        List.map_append,
        List.append_assoc]
      rfl

-- The text of a number of 128 bits.
theorem ulidLoop_eq (n : Nat) :
    encodeLoop ulidLength n (List.replicate ulidLength '0') = (digits 32 ulidLength n).map crockford := by
  rw [encodeLoop_eq _ _ _ (by simp)]
  simp

section Bytes

variable {tokenBytes : List UInt8}

theorem fromBytes_lt (h : tokenBytes.length = ulidRandomBytes) : fromBytes tokenBytes < 2 ^ 80 := by
  have hbytes : ∀ d ∈ tokenBytes.map UInt8.toNat, d < 256 := by
    intro d hd
    obtain ⟨x, -, rfl⟩ := List.mem_map.mp hd
    exact UInt8.toNat_lt x
  have hlt := value_lt hbytes
  rw [List.length_map, h] at hlt
  exact hlt

-- Every number of 80 bits comes from bytes.
theorem fromBytes_digits {r : Nat} (h : r < 2 ^ 80) :
    fromBytes ((digits 256 ulidRandomBytes r).map UInt8.ofNat) = r := by
  have hbytes : ((digits 256 ulidRandomBytes r).map UInt8.ofNat).map UInt8.toNat =
    digits 256 ulidRandomBytes r := by
    rw [List.map_map]
    refine List.map_congr_left (fun d hd => ?_) |>.trans (List.map_id _)
    exact UInt8.toNat_ofNat_of_lt (digits_lt (by decide) _ _ d hd)
  rw [fromBytes, hbytes]
  exact value_digits h

end Bytes

section Ulid

variable {timeNs timeNs' : Int} {tokenBytes tokenBytes' : List UInt8}

-- The 128 bits of an identifier.
def ulidNumber (timeNs : Int) (tokenBytes : List UInt8) : Nat :=
  (timeNs / 1000000).toNat * 2 ^ 80 + fromBytes tokenBytes

theorem ulidNumber_lt (htime : timeNs / 1000000 < 2 ^ 48) (hbytes : tokenBytes.length = ulidRandomBytes) :
    ulidNumber timeNs tokenBytes < 32 ^ ulidLength := by
  have hrandom := fromBytes_lt hbytes
  have hstamp : (timeNs / 1000000).toNat < 2 ^ 48 := by omega
  have hwidth : 32 ^ ulidLength = 2 ^ 130 := by decide
  unfold ulidNumber
  omega

theorem newUlid_eq (htime : 0 ≤ timeNs / 1000000 ∧ timeNs / 1000000 < 2 ^ 48)
    (hbytes : tokenBytes.length = ulidRandomBytes) :
    newUlid timeNs tokenBytes =
      some (.ofList ((digits 32 ulidLength (ulidNumber timeNs tokenBytes)).map crockford)) := by
  have hrange : 0 ≤ timeNs / 1000000 ∧ timeNs / 1000000 ≤ maxUlidTimestamp := by
    have hmax : maxUlidTimestamp = 2 ^ 48 - 1 := rfl
    omega
  have hor : (timeNs / 1000000).toNat <<< 80 ||| fromBytes tokenBytes = ulidNumber timeNs tokenBytes := by
    rw [← Nat.shiftLeft_add_eq_or_of_lt (fromBytes_lt hbytes), Nat.shiftLeft_eq]
    rfl
  unfold newUlid
  dsimp only
  rw [if_pos hrange, hor, ulidLoop_eq]

-- The first digit holds the three highest bits.
theorem digits_head_le {n : Nat} (h : n < 2 ^ 128) :
    ∃ first rest, digits 32 ulidLength n = first :: rest ∧ first ≤ 7 := by
  have hfull : (digits 32 ulidLength n).length = 25 + 1 := digits_length _ _ _
  obtain ⟨first, rest, heq⟩ := List.exists_cons_of_length_eq_add_one hfull
  refine ⟨first, rest, heq, ?_⟩
  have hlength : rest.length = 25 := by
    rw [heq, List.length_cons] at hfull
    exact Nat.succ.inj hfull
  have hwidth : (2 : Nat) ^ 128 < 32 ^ ulidLength := by decide
  have hvalue : value 32 (digits 32 ulidLength n) = n := value_digits (Nat.lt_trans h hwidth)
  rw [heq, value_cons, hlength] at hvalue
  by_contra hnot
  have hmul : 8 * 32 ^ 25 ≤ first * 32 ^ 25 := Nat.mul_le_mul_right _ (by omega)
  have height : 8 * 32 ^ 25 = 2 ^ 128 := by decide
  omega

-- The texts of two numbers are in the order of the numbers.
theorem ulidText_lt_iff {m n : Nat} (hm : m < 32 ^ ulidLength) (hn : n < 32 ^ ulidLength) :
    String.ofList ((digits 32 ulidLength m).map crockford) <
      String.ofList ((digits 32 ulidLength n).map crockford) ↔ m < n := by
  have hbase : 0 < 32 := by decide
  change (String.ofList _).toList < (String.ofList _).toList ↔ _
  rw [String.toList_ofList, String.toList_ofList,
    map_lt_map_iff crockford_lt (digits_lt hbase _ m) (digits_lt hbase _ n), digits_lt_iff hm hn]

theorem ulidValue_text {n : Nat} (h : n < 32 ^ ulidLength) :
    ulidValue (.ofList ((digits 32 ulidLength n).map crockford)) = n := by
  have hdigits : ((digits 32 ulidLength n).map crockford).map crockfordBase32.toList.idxOf =
    digits 32 ulidLength n := by
    rw [List.map_map]
    refine List.map_congr_left (fun d hd => ?_) |>.trans (List.map_id _)
    exact (crockford_mem d (digits_lt (by decide) _ _ d hd)).2
  rw [ulidValue, String.toList_ofList, hdigits]
  exact value_digits h

theorem ulid_faithful (htime : 0 ≤ timeNs / 1000000 ∧ timeNs / 1000000 < 2 ^ 48)
    (htime' : 0 ≤ timeNs' / 1000000 ∧ timeNs' / 1000000 < 2 ^ 48)
    (hbytes : tokenBytes.length = ulidRandomBytes) (hbytes' : tokenBytes'.length = ulidRandomBytes) :
    -- every number of 80 bits is drawn from some bytes
    (∀ r < 2 ^ 80, ∃ bytes : List UInt8, bytes.length = ulidRandomBytes ∧ fromBytes bytes = r) ∧
    ∃ text text', newUlid timeNs tokenBytes = some text ∧ newUlid timeNs' tokenBytes' = some text' ∧
      text.length = 26 ∧ (∀ c ∈ text.toList, c ∈ crockfordBase32.toList) ∧
      (∃ first rest, text.toList = first :: rest ∧ first ≤ '7') ∧
      ulidValue text = (timeNs / 1000000).toNat * 2 ^ 80 + fromBytes tokenBytes ∧
      (text < text' ↔ (timeNs / 1000000).toNat * 2 ^ 80 + fromBytes tokenBytes <
        (timeNs' / 1000000).toNat * 2 ^ 80 + fromBytes tokenBytes') ∧
      (timeNs / 1000000 < timeNs' / 1000000 → text < text') ∧
      (text = text' ↔ timeNs / 1000000 = timeNs' / 1000000 ∧
        fromBytes tokenBytes = fromBytes tokenBytes') := by
  have hn := ulidNumber_lt htime.2 hbytes
  have hn' := ulidNumber_lt htime'.2 hbytes'
  have hrandom := fromBytes_lt hbytes
  have hrandom' := fromBytes_lt hbytes'
  refine ⟨fun r hr => ⟨_, by simp, fromBytes_digits hr⟩, _, _, newUlid_eq htime hbytes,
    newUlid_eq htime' hbytes',
    ?_, ?_, ?_, ulidValue_text hn, ulidText_lt_iff hn hn', ?_, ?_⟩
  · simp [ulidLength]
  · intro c hc
    rw [String.toList_ofList] at hc
    obtain ⟨d, hd, rfl⟩ := List.mem_map.mp hc
    exact (crockford_mem d (digits_lt (by decide) _ _ d hd)).1
  · have hbound : ulidNumber timeNs tokenBytes < 2 ^ 128 := by
      unfold ulidNumber
      omega
    obtain ⟨first, rest, heq, hfirst⟩ := digits_head_le hbound
    refine ⟨crockford first, rest.map crockford, by rw [String.toList_ofList, heq, List.map_cons], ?_⟩
    have hall : ∀ d : Fin 8, crockford d ≤ '7' := by decide
    exact hall ⟨first, by omega⟩
  · intro hlt
    rw [ulidText_lt_iff hn hn']
    unfold ulidNumber
    omega
  · constructor
    · intro heq
      have hnumber : ulidNumber timeNs tokenBytes = ulidNumber timeNs' tokenBytes' := by
        rw [← ulidValue_text hn, heq, ulidValue_text hn']
      unfold ulidNumber at hnumber
      omega
    · rintro ⟨hstamp, hrandoms⟩
      rw [ulidNumber, ulidNumber, hstamp, hrandoms]

-- Two identifiers of one millisecond and the next.
theorem ulid_faithful_next : ∃ text text',
    newUlid 1760000000999999999 (List.replicate 10 255) = some text ∧
      newUlid 1760000001000000000 (List.replicate 10 0) = some text' ∧ text < text' := by
  obtain ⟨-, text, text', htext, htext', -, -, -, -, -, hlater, -⟩ :=
    @ulid_faithful 1760000000999999999 1760000001000000000 (List.replicate 10 255) (List.replicate 10 0)
      (by decide) (by decide) (by decide) (by decide)
  exact ⟨text, text', htext, htext', hlater (by decide)⟩

end Ulid

end Scaffold.Database
