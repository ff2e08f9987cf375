import Scaffold.Python.IpAddress

namespace Scaffold.Python

open Decimal
open Positional

theorem mapM_map {A B : Type*} {f : A → B} {g : B → Option A} {items : List A}
    (h : ∀ x ∈ items, g (f x) = some x) : (items.map f).mapM g = some items := by
  induction items with
  | nil => rfl
  | cons first rest ih =>
      rw [List.map_cons, List.mapM_cons, h first List.mem_cons_self,
        ih fun x hx => h x (List.mem_cons_of_mem first hx)]
      rfl

section Octets

theorem decimalOctet_decimal {n : Nat} (h : n < 256) : decimalOctet (decimal n) = some n := by
  have hne : decimal n ≠ [] := Nat.toDigits_ne_nil
  have hall : (decimal n).all Char.isDigit = true := List.all_eq_true.mpr fun c => isDigit_of_mem_decimal
  have hlength : (decimal n).length ≤ 3 := (decimal_length_le_iff (by decide)).mpr (by omega)
  have hzero : ¬ (decimal n ≠ ['0'] ∧ (decimal n).head? = some '0') := by
    rintro ⟨hother, hhead⟩
    obtain rfl | hpos := Nat.eq_zero_or_pos n
    · exact hother rfl
    · exact decimal_head_ne_zero hpos hhead
  unfold decimalOctet
  rw [if_neg (by simp [hne, hall, hlength]), if_neg hzero, ofDigitChars_decimal, if_neg (by omega)]

theorem isDigit_of_decimalOctet {text : List Char} {n : Nat} (h : decimalOctet text = some n) :
    ∀ c ∈ text, c.isDigit = true := by
  unfold decimalOctet at h
  split_ifs at h with hbad
  push Not at hbad
  exact List.all_eq_true.mp (by simpa using hbad.2.1)

theorem mapM_mem {A B : Type*} {g : A → Option B} {items : List A} {results : List B}
    (h : items.mapM g = some results) : ∀ x ∈ items, ∃ y, g x = some y := by
  induction items generalizing results with
  | nil => exact fun x hx => absurd hx List.not_mem_nil
  | cons first rest ih =>
      rw [List.mapM_cons] at h
      obtain ⟨y, hy, h⟩ := Option.bind_eq_some_iff.mp h
      obtain ⟨ys, hys, -⟩ := Option.bind_eq_some_iff.mp h
      intro x hx
      obtain rfl | hx := List.mem_cons.mp hx
      · exact ⟨y, hy⟩
      · exact ih hys x hx

theorem mem_intercalate {A : Type*} {separator : A} {parts : List (List A)} {x : A}
    (h : x ∈ [separator].intercalate parts) : x = separator ∨ ∃ part ∈ parts, x ∈ part := by
  induction parts with
  | nil => cases h
  | cons first rest ih =>
      cases rest with
      | nil =>
          rw [List.intercalate_singleton] at h
          exact .inr ⟨first, List.mem_cons_self, h⟩
      | cons next rest =>
          rw [List.intercalate_cons_cons, List.append_assoc, List.mem_append, List.mem_append,
            List.mem_singleton] at h
          obtain h | h | h := h
          · exact .inr ⟨first, List.mem_cons_self, h⟩
          · exact .inl h
          · obtain h | ⟨part, hpart, hx⟩ := ih h
            · exact .inl h
            · exact .inr ⟨part, List.mem_cons_of_mem first hpart, hx⟩

-- An address of version 4 has no characters but digits and dots.
theorem IPv4Address.chars_of_ofText {text : List Char} {address : IPv4Address}
    (h : IPv4Address.ofText text = some address) : ∀ c ∈ text, c.isDigit = true ∨ c = '.' := by
  unfold IPv4Address.ofText ipv4Number at h
  split_ifs at h with hslash
  obtain ⟨ip, hip, -⟩ := Option.bind_eq_some_iff.mp h
  dsimp only at hip
  split_ifs at hip with hfour
  obtain ⟨octets, hoctets, -⟩ := Option.map_eq_some_iff.mp hip
  intro c hc
  have htext : ['.'].intercalate (text.splitOn '.') = text := List.intercalate_splitOn '.'
  rw [← htext] at hc
  obtain rfl | ⟨part, hpart, hc⟩ := mem_intercalate hc
  · exact .inr rfl
  · obtain ⟨n, hn⟩ := mapM_mem hoctets part hpart
    exact .inl (isDigit_of_decimalOctet hn c hc)

theorem IPv4Address.mem_text {address : IPv4Address} {c : Char} (h : c ∈ address.text) :
    c.isDigit = true ∨ c = '.' := by
  obtain rfl | ⟨part, hpart, hc⟩ := mem_intercalate h
  · exact .inr rfl
  · obtain ⟨d, -, rfl⟩ := List.mem_map.mp hpart
    exact .inl (isDigit_of_mem_decimal hc)

theorem IPv4Address.ofText_text (address : IPv4Address) : IPv4Address.ofText address.text = some address := by
  have hslash : '/' ∉ address.text := fun h => by
    obtain h | h := IPv4Address.mem_text h <;> exact absurd h (by decide)
  have hsplit : address.text.splitOn '.' = (digits 256 4 address.ip).map decimal := by
    refine List.splitOn_intercalate '.' ?_ ?_
    · intro part hpart hdot
      obtain ⟨d, -, rfl⟩ := List.mem_map.mp hpart
      exact absurd (isDigit_of_mem_decimal hdot) (by decide)
    · intro hnil
      have := congrArg List.length hnil
      simp at this
  have hoctets : ((digits 256 4 address.ip).map decimal).mapM decimalOctet =
      some (digits 256 4 address.ip) :=
    mapM_map fun d hd => decimalOctet_decimal (digits_lt (by decide) 4 address.ip d hd)
  unfold IPv4Address.ofText ipv4Number
  rw [if_neg hslash, hsplit, if_pos (by simp), hoctets, Option.map_some, value_digits address.bound,
    Option.bind_some, dif_pos address.bound]

end Octets

section Hextets

theorem hexOf_digitChar {n : Nat} (h : n < 16) : hexOf n.digitChar = some n := by
  interval_cases n <;> decide

theorem mapM_append_some {A B : Type*} {g : A → Option B} {xs ys : List A} {as bs : List B}
    (hxs : xs.mapM g = some as) (hys : ys.mapM g = some bs) : (xs ++ ys).mapM g = some (as ++ bs) := by
  rw [List.mapM_append, hxs, hys]
  rfl

theorem mapM_hextet (n : Nat) : ∃ ds, (hextet n).mapM hexOf = some ds ∧ value 16 ds = n := by
  induction n using Nat.strong_induction_on with
  | _ n ih =>
      by_cases hn : n < 16
      · refine ⟨[n], ?_, by simp [value]⟩
        rw [hextet, Nat.toDigits_of_lt_base hn, List.mapM_cons, hexOf_digitChar hn]
        rfl
      · obtain ⟨ds, hds, hvalue⟩ := ih (n / 16) (by omega)
        have hlast : [(n % 16).digitChar].mapM hexOf = some [n % 16] := by
          rw [List.mapM_cons, hexOf_digitChar (Nat.mod_lt n (by decide))]
          rfl
        refine ⟨ds ++ [n % 16], ?_, ?_⟩
        · rw [hextet, Nat.toDigits_of_base_le (by decide) (by omega)]
          exact mapM_append_some hds hlast
        · rw [value, List.foldl_append, List.foldl_cons, List.foldl_nil]
          rw [value] at hvalue
          rw [hvalue]
          omega

theorem hextet_ne_nil (n : Nat) : hextet n ≠ [] := Nat.toDigits_ne_nil

theorem hextet_length {n : Nat} (h : n < 65536) : (hextet n).length ≤ 4 :=
  (Nat.length_toDigits_le_iff (by decide) (by decide)).mpr h

theorem parseHextet_hextet {n : Nat} (h : n < 65536) : parseHextet (hextet n) = some n := by
  obtain ⟨ds, hds, hvalue⟩ := mapM_hextet n
  have hlength := hextet_length h
  unfold parseHextet
  rw [if_neg (by simp [hextet_ne_nil, hlength]), hds, Option.map_some, hvalue]

theorem hexOf_of_mem {n : Nat} {c : Char} (h : c ∈ hextet n) : ∃ d, hexOf c = some d := by
  obtain ⟨ds, hds, -⟩ := mapM_hextet n
  exact mapM_mem hds c h

theorem hextet_eq_zero {n : Nat} (h : n < 65536) : hextet n = ['0'] ↔ n = 0 := by
  constructor
  · intro heq
    have hparse := parseHextet_hextet h
    rw [heq] at hparse
    exact (Option.some.inj hparse).symm
  · rintro rfl
    rfl

end Hextets

section Compress

-- A run of zeros among the parts.
def ZeroRun (parts : List (List Char)) (start length : Nat) : Prop :=
  ∀ i, start ≤ i → i < start + length → parts[i]? = some ['0']

-- What the scan has found in the parts before the index.
structure RunsOk (parts : List (List Char)) (index : Nat) (runs : Runs) : Prop where
  bestEnd : runs.bestStart + runs.bestLength ≤ index
  best : ZeroRun parts runs.bestStart runs.bestLength
  idle : runs.start = none → runs.length = 0
  current : ∀ start, runs.start = some start → start + runs.length = index ∧ ZeroRun parts start runs.length

theorem RunsOk.next {parts : List (List Char)} {index : Nat} {runs : Runs} {part : List Char}
    (h : RunsOk parts index runs) (hpart : parts[index]? = some part) :
    RunsOk parts (index + 1) (runs.next index part) := by
  unfold Runs.next
  by_cases hzero : part = ['0']
  · subst hzero
    have hrun : runs.start.getD index + (runs.length + 1) = index + 1 ∧
        ZeroRun parts (runs.start.getD index) (runs.length + 1) := by
      cases hstart : runs.start with
      | none =>
          have hlength := h.idle hstart
          refine ⟨by simp [hlength], fun i hi hend => ?_⟩
          obtain rfl : i = index := by
            simp only [Option.getD_none] at hi hend
            omega
          exact hpart
      | some start =>
          obtain ⟨hend, hrun⟩ := h.current start hstart
          refine ⟨by simp only [Option.getD_some]; omega, fun i hi hlast => ?_⟩
          simp only [Option.getD_some] at hi hlast
          by_cases hi' : i = index
          · exact hi' ▸ hpart
          · exact hrun i hi (by omega)
    obtain ⟨hend, hzero⟩ := hrun
    rw [if_pos rfl]
    dsimp only
    split_ifs with hbetter
    · exact ⟨by dsimp only; omega, hzero, nofun, fun start hstart => Option.some.inj hstart ▸ ⟨hend, hzero⟩⟩
    · exact ⟨Nat.le_succ_of_le h.bestEnd, h.best, nofun,
        fun start hstart => Option.some.inj hstart ▸ ⟨hend, hzero⟩⟩
  · rw [if_neg hzero]
    exact ⟨Nat.le_succ_of_le h.bestEnd, h.best, fun _ => rfl, nofun⟩

theorem RunsOk.scan {before rest : List (List Char)} {runs : Runs}
    (h : RunsOk (before ++ rest) before.length runs) :
    RunsOk (before ++ rest) (before ++ rest).length (runs.scan before.length rest) := by
  induction rest generalizing before runs with
  | nil =>
      rw [List.append_nil] at h ⊢
      exact h
  | cons part rest ih =>
      have hpart : (before ++ part :: rest)[before.length]? = some part := by simp
      have hnext := h.next hpart
      have hlength : (before ++ [part]).length = before.length + 1 := by simp
      rw [← hlength, List.append_cons] at hnext
      have hscan := ih hnext
      rw [hlength, ← List.append_cons] at hscan
      exact hscan

-- Parts around a place that stands for a run of zeros; at an end of the address it is doubled.
def around (before after : List (List Char)) : List (List Char) :=
  (if before = [] then [[]] else []) ++ before ++ [[]] ++ after ++ if after = [] then [[]] else []

theorem ZeroRun.split {parts : List (List Char)} {start length : Nat} (h : ZeroRun parts start length) :
    parts = parts.take start ++ List.replicate length ['0'] ++ parts.drop (start + length) := by
  have hrun : (parts.drop start).take length = List.replicate length ['0'] := by
    refine List.ext_getElem? fun i => ?_
    rw [List.getElem?_take, List.getElem?_replicate]
    split_ifs with hi
    · rw [List.getElem?_drop]
      exact h (start + i) (by omega) (by omega)
    · rfl
  rw [← hrun, ← List.drop_drop, List.append_assoc, List.take_append_drop, List.take_append_drop]

-- The text of an address has its parts as they are, or leaves a run of zeros out.
theorem compressHextets_cases (parts : List (List Char)) : compressHextets parts = parts ∨
    ∃ before length after, parts = before ++ List.replicate length ['0'] ++ after ∧ 2 ≤ length ∧
      compressHextets parts = around before after := by
  have hempty : RunsOk ([] ++ parts) ([] : List (List Char)).length
      { bestStart := 0, bestLength := 0, start := none, length := 0 } :=
    ⟨Nat.le_refl 0, fun i _ hend => absurd hend (Nat.not_lt_zero i), fun _ => rfl, nofun⟩
  have hok := hempty.scan
  rw [List.nil_append] at hok
  unfold compressHextets
  generalize Runs.scan { bestStart := 0, bestLength := 0, start := none, length := 0 }
    ([] : List (List Char)).length parts = runs at hok
  by_cases hlong : 1 < runs.bestLength
  · refine .inr ⟨parts.take runs.bestStart, runs.bestLength,
      parts.drop (runs.bestStart + runs.bestLength), hok.best.split, hlong, ?_⟩
    have hbefore : parts.take runs.bestStart = [] ↔ runs.bestStart = 0 := by
      have := hok.bestEnd
      rw [← List.length_eq_zero_iff, List.length_take]
      omega
    have hafter : parts.drop (runs.bestStart + runs.bestLength) = [] ↔
        runs.bestStart + runs.bestLength = parts.length := by
      have := hok.bestEnd
      rw [← List.length_eq_zero_iff, List.length_drop]
      omega
    have htake : (parts ++ [[]]).take runs.bestStart = parts.take runs.bestStart :=
      List.take_append_of_le_length (by have := hok.bestEnd; omega)
    have hdrop : (parts ++ [[]]).drop (runs.bestStart + runs.bestLength) =
        parts.drop (runs.bestStart + runs.bestLength) ++ [[]] :=
      List.drop_append_of_le_length hok.bestEnd
    simp only [if_pos hlong, around, hbefore, hafter]
    split_ifs
    · rw [htake, hdrop]
      simp
    · simp
    · rw [htake, hdrop]
      simp
    · simp
  · exact .inl (if_neg hlong)

end Compress

section Layout

theorem emptyFrom_append {before rest : List (List Char)} (index : Nat)
    (hbefore : ∀ part ∈ before, part ≠ []) (hrest : rest ≠ []) :
    emptyFrom index (before ++ rest) = emptyFrom (index + before.length) rest := by
  induction before generalizing index with
  | nil => rfl
  | cons first before ih =>
      obtain ⟨next, tail, htail⟩ := List.exists_cons_of_ne_nil (by simp [hrest] : before ++ rest ≠ [])
      rw [List.cons_append, htail, emptyFrom, if_neg (hbefore first List.mem_cons_self), ← htail,
        ih (index + 1) fun part hpart => hbefore part (List.mem_cons_of_mem first hpart), List.length_cons,
        Nat.add_right_comm, Nat.add_assoc]

theorem emptyFrom_eq_nil {parts : List (List Char)} (index : Nat) (h : ∀ part ∈ parts, part ≠ []) :
    emptyFrom index parts = [] := by
  induction parts generalizing index with
  | nil => rfl
  | cons first rest ih =>
      cases rest with
      | nil => rfl
      | cons next rest =>
          rw [emptyFrom, if_neg (h first List.mem_cons_self)]
          exact ih (index + 1) fun part hpart => h part (List.mem_cons_of_mem first hpart)

theorem emptyFrom_skip {parts : List (List Char)} (index : Nat) (h : ∀ part ∈ parts, part ≠ [])
    (hne : parts ≠ []) : emptyFrom index ([] :: parts) = [index] := by
  obtain ⟨next, tail, rfl⟩ := List.exists_cons_of_ne_nil hne
  rw [emptyFrom, if_pos rfl, emptyFrom_eq_nil (index + 1) h]

theorem getLast?_ne_nil {parts : List (List Char)} (h : ∀ part ∈ parts, part ≠ []) :
    parts.getLast? ≠ some [] :=
  fun hlast => h [] (List.mem_of_getLast? hlast) rfl

theorem partLayout_full {parts : List (List Char)} (h : ∀ part ∈ parts, part ≠ [])
    (hlength : parts.length = 8) : partLayout parts = some (8, 0, 0) := by
  unfold partLayout
  rw [emptyFrom_eq_nil 1 fun part hpart => h part (List.mem_of_mem_tail hpart)]
  exact if_pos hlength

theorem partLayout_skip {parts : List (List Char)} {skip first last : Nat}
    (hskip : emptyFrom 1 parts.tail = [skip])
    (hfirst : parts.head? = some [] ∧ skip = 1 ∧ first = 0 ∨ parts.head? ≠ some [] ∧ first = skip)
    (hlast : parts.getLast? = some [] ∧ parts.length = skip + 2 ∧ last = 0 ∨
      parts.getLast? ≠ some [] ∧ parts.length = skip + last + 1)
    (hfew : first + last < 8) : partLayout parts = some (first, 8 - (first + last), last) := by
  unfold partLayout
  rw [hskip]
  obtain ⟨hhead, rfl, rfl⟩ | ⟨hhead, rfl⟩ := hfirst
  · obtain ⟨hend, hlength, rfl⟩ | ⟨hend, hlength⟩ := hlast
    · simp [hhead, hend, hlength]
    · have hlow : last < 8 := by omega
      simp [hhead, hend, hlength, Nat.not_lt.mpr hlow]
  · obtain ⟨hend, hlength, rfl⟩ | ⟨hend, hlength⟩ := hlast
    · simp [hhead, hend, hlength, Nat.not_lt.mpr hfew]
    · have hbehind : first + last + 1 - first - 1 = last := by omega
      simp [hhead, hend, hlength, hbehind, Nat.not_lt.mpr hfew]

theorem partLayout_around {before after : List (List Char)} (hbefore : ∀ part ∈ before, part ≠ [])
    (hafter : ∀ part ∈ after, part ≠ []) (hlength : before.length + after.length < 8) :
    partLayout (around before after) =
      some (before.length, 8 - (before.length + after.length), after.length) := by
  have hlast := getLast?_ne_nil hafter
  cases before with
  | nil =>
      cases after with
      | nil => rfl
      | cons next after =>
          have hskip : emptyFrom 1 (around [] (next :: after)).tail = [1] := by
            simpa [around] using emptyFrom_skip 1 hafter (List.cons_ne_nil _ _)
          refine partLayout_skip hskip (.inl ⟨rfl, rfl, rfl⟩) (.inr ⟨?_, ?_⟩) hlength
          · simpa [around] using hlast
          · simp [around]
            omega
  | cons first before =>
      have hfirst : first ≠ [] := hbefore first List.mem_cons_self
      have htail : ∀ part ∈ before, part ≠ [] := fun part hpart => hbefore part (List.mem_cons_of_mem first hpart)
      have hhead : (around (first :: before) after).head? ≠ some [] := by
        simpa [around] using hfirst
      refine partLayout_skip ?_ (.inr ⟨hhead, rfl⟩) ?_ hlength
      · cases after with
        | nil =>
            have happend : emptyFrom 1 (before ++ [[], []]) = emptyFrom (1 + before.length) [[], []] :=
              emptyFrom_append 1 htail (List.cons_ne_nil _ _)
            simpa [around, emptyFrom, Nat.add_comm] using happend
        | cons next after =>
            have happend : emptyFrom 1 (before ++ [] :: next :: after) =
                emptyFrom (1 + before.length) ([] :: next :: after) :=
              emptyFrom_append 1 htail (List.cons_ne_nil _ _)
            rw [emptyFrom_skip _ hafter (List.cons_ne_nil _ _)] at happend
            simpa [around, Nat.add_comm] using happend
      · cases after with
        | nil => exact .inl ⟨by simp [around, List.getLast?_cons], by simp [around], rfl⟩
        | cons next after =>
            refine .inr ⟨?_, ?_⟩
            · simpa [around, List.getLast?_cons] using hlast
            · simp [around]
              omega

end Layout

section RoundTrip

theorem intercalate_length {parts : List (List Char)} {width : Nat} (separator : Char)
    (h : ∀ part ∈ parts, part.length ≤ width) :
    ([separator].intercalate parts).length ≤ (width + 1) * parts.length := by
  induction parts with
  | nil => simp
  | cons first rest ih =>
      have hfirst := h first List.mem_cons_self
      have hrest := ih fun part hpart => h part (List.mem_cons_of_mem first hpart)
      cases rest with
      | nil => simpa using Nat.le_succ_of_le hfirst
      | cons next rest =>
          have hmul : (width + 1) * (first :: next :: rest).length =
              (width + 1) * (next :: rest).length + (width + 1) := Nat.mul_succ _ _
          rw [List.intercalate_cons_cons, List.length_append, List.length_append, List.length_singleton, hmul]
          omega

theorem mem_around {before after : List (List Char)} {part : List Char} (h : part ∈ around before after) :
    part = [] ∨ part ∈ before ∨ part ∈ after := by
  unfold around at h
  simp only [List.mem_append, List.mem_singleton] at h
  obtain (((h | h) | h) | h) | h := h
  · split_ifs at h
    · exact .inl (List.mem_singleton.mp h)
    · cases h
  · exact .inr (.inl h)
  · exact .inl h
  · exact .inr (.inr h)
  · split_ifs at h
    · exact .inl (List.mem_singleton.mp h)
    · cases h

theorem around_length (before after : List (List Char)) : 3 ≤ (around before after).length ∧
    (around before after).length ≤ before.length + after.length + 3 := by
  have hempty : ∀ parts : List (List Char), (if parts = [] then [[]] else ([] : List (List Char))).length ≤ 1 ∧
      1 ≤ (if parts = [] then [[]] else ([] : List (List Char))).length + parts.length := by
    intro parts
    cases parts <;> simp
  have hbefore := hempty before
  have hafter := hempty after
  simp only [around, List.length_append, List.length_singleton]
  omega

theorem hex_ne {n : Nat} {c : Char} (h : c ∈ hextet n) : c ≠ ':' ∧ c ≠ '.' ∧ c ≠ '%' ∧ c ≠ '/' := by
  obtain ⟨d, hd⟩ := hexOf_of_mem h
  refine ⟨?_, ?_, ?_, ?_⟩ <;> rintro rfl <;> cases hd

-- The parts of an address, which are empty or the hextets of a part.
def Parts (parts : List (List Char)) : Prop :=
  ∀ part ∈ parts, part = [] ∨ ∃ n, n < 65536 ∧ part = hextet n

theorem parts_map {ds : List Nat} (h : ∀ d ∈ ds, d < 65536) : Parts (ds.map hextet) := by
  intro part hpart
  obtain ⟨d, hd, rfl⟩ := List.mem_map.mp hpart
  exact .inr ⟨d, h d hd, rfl⟩

theorem Parts.around {before after : List (List Char)} (hbefore : Parts before) (hafter : Parts after) :
    Parts (around before after) := by
  intro part hpart
  obtain rfl | hpart | hpart := mem_around hpart
  · exact .inl rfl
  · exact hbefore part hpart
  · exact hafter part hpart

theorem Parts.chars {parts : List (List Char)} (h : Parts parts) {part : List Char} (hpart : part ∈ parts)
    {c : Char} (hc : c ∈ part) : c ≠ ':' ∧ c ≠ '.' ∧ c ≠ '%' ∧ c ≠ '/' := by
  obtain rfl | ⟨n, -, rfl⟩ := h part hpart
  · cases hc
  · exact hex_ne hc

theorem Parts.length_le {parts : List (List Char)} (h : Parts parts) : ∀ part ∈ parts, part.length ≤ 4 := by
  intro part hpart
  obtain rfl | ⟨n, hn, rfl⟩ := h part hpart
  · exact Nat.zero_le 4
  · exact hextet_length hn

theorem withoutIPv4_eq {parts : List (List Char)} (h : Parts parts) : withoutIPv4 parts = some parts := by
  unfold withoutIPv4
  split
  · rfl
  · rename_i last hlast
    exact if_neg fun hdot => (h.chars (List.mem_of_getLast? hlast) hdot).2.1 rfl

-- A text is read by the layout of its parts.
theorem ipv6Number_of_split {text : List Char} {parts : List (List Char)} {first skipped last : Nat}
    {high low : List Nat} (hlength : text.length ≤ 45) (hfew : 3 ≤ (text.splitOn ':').length)
    (hparts : withoutIPv4 (text.splitOn ':') = some parts) (hmany : parts.length ≤ 9)
    (hlayout : partLayout parts = some (first, skipped, last))
    (hhigh : (parts.take first).mapM parseHextet = some high)
    (hlow : (parts.drop (parts.length - last)).mapM parseHextet = some low) :
    ipv6Number text = some (value 65536 (high ++ List.replicate skipped 0 ++ low)) := by
  unfold ipv6Number
  dsimp only
  rw [if_neg (by omega), hparts]
  simp only [Option.bind_eq_bind, Option.bind_some]
  rw [if_neg (by omega), hlayout]
  simp only [Option.bind_some, hhigh, hlow]

theorem ipv6Number_intercalate {parts : List (List Char)} {first skipped last : Nat} {high low : List Nat}
    (h : Parts parts) (hfew : 3 ≤ parts.length) (hmany : parts.length ≤ 9)
    (hlayout : partLayout parts = some (first, skipped, last))
    (hhigh : (parts.take first).mapM parseHextet = some high)
    (hlow : (parts.drop (parts.length - last)).mapM parseHextet = some low) :
    ipv6Number ([':'].intercalate parts) = some (value 65536 (high ++ List.replicate skipped 0 ++ low)) := by
  have hsplit : ([':'].intercalate parts).splitOn ':' = parts :=
    List.splitOn_intercalate ':' (fun part hpart hcolon => (h.chars hpart hcolon).1 rfl) (by
      rintro rfl
      exact absurd hfew (by decide))
  have hlength : ([':'].intercalate parts).length ≤ 45 := by
    have := intercalate_length ':' h.length_le
    omega
  have hread : withoutIPv4 (([':'].intercalate parts).splitOn ':') = some parts := by
    rw [hsplit, withoutIPv4_eq h]
  exact ipv6Number_of_split hlength (by rw [hsplit]; exact hfew) hread hmany hlayout hhigh hlow

theorem mapM_hextets {ds : List Nat} (h : ∀ d ∈ ds, d < 65536) :
    (ds.map hextet).mapM parseHextet = some ds :=
  mapM_map fun d hd => parseHextet_hextet (h d hd)

theorem ne_nil_of_map {ds : List Nat} : ∀ part ∈ ds.map hextet, part ≠ [] := by
  intro part hpart
  obtain ⟨d, -, rfl⟩ := List.mem_map.mp hpart
  exact hextet_ne_nil d

theorem around_take (before after : List (List Char)) :
    (around before after).take before.length = before := by
  cases before <;> simp [around]

theorem around_drop (before after : List (List Char)) :
    (around before after).drop ((around before after).length - after.length) = after := by
  cases after with
  | nil => simp
  | cons next after =>
      have hsplit : around before (next :: after) =
          ((if before = [] then [[]] else []) ++ before ++ [[]]) ++ (next :: after) := by
        simp [around]
      rw [hsplit, List.length_append, Nat.add_sub_cancel, List.drop_left]

theorem ipv6Number_text {ip : Nat} (h : ip < 65536 ^ 8) : ipv6Number (ipv6Text ip) = some ip := by
  have hdigits := digits_lt (by decide : 0 < 65536) 8 ip
  have hvalue := value_digits h
  have hlength := digits_length 65536 8 ip
  unfold ipv6Text
  generalize digits 65536 8 ip = ds at hdigits hvalue hlength
  obtain heq | ⟨before, length, after, hparts, hlong, heq⟩ := compressHextets_cases (ds.map hextet)
  · have hhigh : ((ds.map hextet).take 8).mapM parseHextet = some ds := by
      rw [List.take_of_length_le (by simp [hlength])]
      exact mapM_hextets hdigits
    have hlow : ((ds.map hextet).drop ((ds.map hextet).length - 0)).mapM parseHextet = some [] := by
      rw [Nat.sub_zero, List.drop_length]
      rfl
    rw [heq, ipv6Number_intercalate (parts_map hdigits) (by simp [hlength]) (by simp [hlength])
      (partLayout_full ne_nil_of_map (by simp [hlength])) hhigh hlow]
    simp [hvalue]
  · obtain ⟨front, bs, rfl, hfront, rfl⟩ := List.map_eq_append_iff.mp hparts
    obtain ⟨as, zeros, rfl, rfl, hzeros⟩ := List.map_eq_append_iff.mp hfront
    simp only [List.mem_append] at hdigits
    have has : ∀ d ∈ as, d < 65536 := fun d hd => hdigits d (.inl (.inl hd))
    have hbs : ∀ d ∈ bs, d < 65536 := fun d hd => hdigits d (.inr hd)
    have hzero : zeros = List.replicate length 0 := by
      refine List.eq_replicate_iff.mpr ⟨by simpa using congrArg List.length hzeros, fun d hd => ?_⟩
      have hpart : hextet d ∈ List.replicate length ['0'] := hzeros ▸ List.mem_map_of_mem hd
      exact (hextet_eq_zero (hdigits d (.inl (.inr hd)))).mp (List.eq_of_mem_replicate hpart)
    subst hzero
    simp only [List.length_append, List.length_replicate] at hlength
    obtain ⟨hfew, hmany⟩ := around_length (as.map hextet) (bs.map hextet)
    rw [List.length_map, List.length_map] at hmany
    have hhigh : ((around (as.map hextet) (bs.map hextet)).take (as.map hextet).length).mapM parseHextet =
        some as := by
      rw [around_take]
      exact mapM_hextets has
    have hlow : ((around (as.map hextet) (bs.map hextet)).drop
        ((around (as.map hextet) (bs.map hextet)).length - (bs.map hextet).length)).mapM parseHextet = some bs := by
      rw [around_drop]
      exact mapM_hextets hbs
    rw [heq, ipv6Number_intercalate ((parts_map has).around (parts_map hbs)) hfew (by omega)
      (partLayout_around ne_nil_of_map ne_nil_of_map (by simp only [List.length_map]; omega)) hhigh hlow]
    have hskip : 8 - ((as.map hextet).length + (bs.map hextet).length) = length := by
      simp only [List.length_map]
      omega
    rw [hskip, hvalue]

theorem compressHextets_parts {ds : List Nat} (h : ∀ d ∈ ds, d < 65536) :
    Parts (compressHextets (ds.map hextet)) := by
  obtain heq | ⟨before, length, after, hparts, -, heq⟩ := compressHextets_cases (ds.map hextet)
  · rw [heq]
    exact parts_map h
  · have hmap := parts_map h
    rw [hparts] at hmap
    rw [heq]
    refine Parts.around (fun part hpart => hmap part ?_) fun part hpart => hmap part ?_
    · exact List.mem_append_left _ (List.mem_append_left _ hpart)
    · exact List.mem_append_right _ hpart

theorem mem_ipv6Text {ip : Nat} {c : Char} (h : c ∈ ipv6Text ip) : c ≠ '%' ∧ c ≠ '/' := by
  obtain rfl | ⟨part, hpart, hc⟩ := mem_intercalate h
  · decide
  · exact ((compressHextets_parts (digits_lt (by decide) 8 ip)).chars hpart hc).2.2

theorem colon_mem_ipv6Text (ip : Nat) : ':' ∈ ipv6Text ip := by
  have hlength : 3 ≤ (compressHextets ((digits 65536 8 ip).map hextet)).length := by
    obtain heq | ⟨before, length, after, -, -, heq⟩ := compressHextets_cases ((digits 65536 8 ip).map hextet)
    · rw [heq]
      simp
    · rw [heq]
      exact (around_length before after).1
  unfold ipv6Text
  generalize compressHextets ((digits 65536 8 ip).map hextet) = parts at hlength
  cases parts with
  | nil => exact absurd hlength (by decide)
  | cons first rest =>
      cases rest with
      | nil => simp at hlength
      | cons next rest =>
          rw [List.intercalate_cons_cons]
          simp

theorem IPv6Address.ofText_text (address : IPv6Address) : IPv6Address.ofText address.text = some address := by
  obtain ⟨ip, scopeId, hbound, hscope⟩ := address
  have hpercent : '%' ∉ ipv6Text ip := fun h => (mem_ipv6Text h).1 rfl
  have hslash : '/' ∉ ipv6Text ip := fun h => (mem_ipv6Text h).2 rfl
  cases scopeId with
  | none =>
      have hsplit : (ipv6Text ip).splitOn '%' = [ipv6Text ip] := List.splitOn_eq_singleton hpercent
      unfold IPv6Address.ofText IPv6Address.text
      dsimp only
      rw [if_neg hslash, hsplit]
      dsimp only
      rw [ipv6Number_text hbound, Option.bind_some, dif_pos hbound]
  | some id =>
      have hid := hscope id rfl
      have hsplit : (ipv6Text ip ++ '%' :: id).splitOn '%' = [ipv6Text ip, id] := by
        rw [List.splitOn_append_cons_self_of_not_mem hpercent, List.splitOn_eq_singleton hid.2.1]
      have hclean : '/' ∉ ipv6Text ip ++ '%' :: id := by
        simp [hslash, hid.2.2]
      unfold IPv6Address.ofText IPv6Address.text
      dsimp only
      rw [if_neg hclean, hsplit]
      dsimp only
      rw [dif_pos hid, ipv6Number_text hbound, Option.bind_some, dif_pos hbound]

theorem IPv6Address.colon_mem_text (address : IPv6Address) : ':' ∈ address.text := by
  unfold IPv6Address.text
  split
  · exact colon_mem_ipv6Text _
  · exact List.mem_append_left _ (colon_mem_ipv6Text _)

-- The text of an address is read as that address.
theorem ipAddress_compressed (address : IpAddress) : ipAddress address.compressed = some address := by
  cases address with
  | v4 address => rw [ipAddress, IpAddress.compressed, IPv4Address.ofText_text]
  | v6 address =>
      have hnone : IPv4Address.ofText address.text = none := by
        rw [Option.eq_none_iff_forall_not_mem]
        intro other hother
        obtain h | h := IPv4Address.chars_of_ofText hother ':' address.colon_mem_text <;>
          exact absurd h (by decide)
      rw [ipAddress, IpAddress.compressed, hnone]
      dsimp only
      rw [IPv6Address.ofText_text]
      rfl

theorem compressed_injective : Function.Injective IpAddress.compressed := by
  intro a b h
  have hread := congrArg ipAddress h
  rw [ipAddress_compressed, ipAddress_compressed] at hread
  exact Option.some.inj hread

end RoundTrip

end Scaffold.Python
