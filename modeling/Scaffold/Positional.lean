import Mathlib.Data.List.Basic
import Mathlib.Tactic.Common
import Mathlib.Tactic.Ring

namespace Scaffold.Positional

-- Numbers as digits of a fixed width, the most significant digit first.

variable {base : Nat}

def digits (base : Nat) : Nat → Nat → List Nat
  | 0, _ => []
  | width + 1, n => digits base width (n / base) ++ [n % base]

def value (base : Nat) (ds : List Nat) : Nat :=
  ds.foldl (fun n d => n * base + d) 0

@[simp] theorem digits_length (base width n : Nat) : (digits base width n).length = width := by
  induction width generalizing n with
  | zero => rfl
  | succ width ih => simp [digits, ih]

theorem digits_lt (hbase : 0 < base) (width n : Nat) : ∀ d ∈ digits base width n, d < base := by
  induction width generalizing n with
  | zero => simp [digits]
  | succ width ih =>
      intro d hd
      obtain hd | hd := List.mem_append.mp hd
      · exact ih _ d hd
      · rw [List.mem_singleton.mp hd]
        exact Nat.mod_lt n hbase

theorem value_digits {width n : Nat} (h : n < base ^ width) : value base (digits base width n) = n := by
  induction width generalizing n with
  | zero =>
      rw [Nat.pow_zero] at h
      simp [value, digits]
      omega
  | succ width ih =>
      rw [Nat.pow_succ] at h
      have hrest : value base (digits base width (n / base)) = n / base := ih (Nat.div_lt_of_lt_mul (by
        rw [Nat.mul_comm]
        exact h))
      simp only [value, digits, List.foldl_append, List.foldl_cons, List.foldl_nil] at hrest ⊢
      rw [hrest, Nat.mul_comm, Nat.div_add_mod]

-- A choice of characters that tells the digits apart tells the numbers apart.
theorem map_digits_injective {α : Type*} {f : Nat → α} (hbase : 0 < base)
    (hf : ∀ i j, i < base → j < base → f i = f j → i = j) {width m n : Nat} (hm : m < base ^ width)
    (hn : n < base ^ width) (h : (digits base width m).map f = (digits base width n).map f) : m = n := by
  induction width generalizing m n with
  | zero =>
      rw [Nat.pow_zero] at hm hn
      omega
  | succ width ih =>
      rw [Nat.pow_succ] at hm hn
      rw [digits, digits, List.map_append, List.map_append] at h
      obtain ⟨hhigh, hlow⟩ := List.append_inj h (by simp)
      have hrest : m / base = n / base :=
        ih (Nat.div_lt_of_lt_mul (Nat.mul_comm _ _ ▸ hm)) (Nat.div_lt_of_lt_mul (Nat.mul_comm _ _ ▸ hn)) hhigh
      have hlast : m % base = n % base :=
        hf _ _ (Nat.mod_lt m hbase) (Nat.mod_lt n hbase) (List.head_eq_of_cons_eq hlow)
      rw [← Nat.div_add_mod m base, hrest, hlast, Nat.div_add_mod]

theorem foldl_value (ds : List Nat) (n : Nat) :
    ds.foldl (fun n d => n * base + d) n = n * base ^ ds.length + value base ds := by
  induction ds generalizing n with
  | nil => simp [value]
  | cons d ds ih =>
      simp only [value, List.foldl_cons, List.length_cons]
      rw [ih, ih (0 * base + d)]
      ring

theorem value_cons (d : Nat) (ds : List Nat) :
    value base (d :: ds) = d * base ^ ds.length + value base ds := by
  rw [value, List.foldl_cons, foldl_value]
  simp

theorem value_lt {ds : List Nat} (h : ∀ d ∈ ds, d < base) : value base ds < base ^ ds.length := by
  induction ds with
  | nil => simp [value]
  | cons d ds ih =>
      have hd : d + 1 ≤ base := h d List.mem_cons_self
      have hds := ih fun x hx => h x (List.mem_cons_of_mem d hx)
      have hmul : (d + 1) * base ^ ds.length ≤ base * base ^ ds.length := Nat.mul_le_mul_right _ hd
      rw [value_cons, List.length_cons, Nat.pow_succ, Nat.mul_comm (base ^ ds.length)]
      rw [Nat.add_mul, Nat.one_mul] at hmul
      omega

-- A larger first digit outweighs all digits behind it.
theorem value_cons_lt {d e : Nat} {ds es : List Nat} (hlength : ds.length = es.length)
    (hds : ∀ x ∈ ds, x < base) (h : d < e) : value base (d :: ds) < value base (e :: es) := by
  have hlow := value_lt hds
  have hmul : (d + 1) * base ^ ds.length ≤ e * base ^ ds.length := Nat.mul_le_mul_right _ h
  rw [value_cons, value_cons, ← hlength]
  rw [Nat.add_mul, Nat.one_mul] at hmul
  omega

-- Digits of one width are in the order of the numbers.
theorem lt_iff_value_lt {ds es : List Nat} (hlength : ds.length = es.length) (hds : ∀ x ∈ ds, x < base)
    (hes : ∀ x ∈ es, x < base) : ds < es ↔ value base ds < value base es := by
  induction ds generalizing es with
  | nil =>
      obtain rfl := List.length_eq_zero_iff.mp hlength.symm
      simp
  | cons d ds ih =>
      cases es with
      | nil => cases hlength
      | cons e es =>
          have hrest := Nat.succ.inj hlength
          have hds' : ∀ x ∈ ds, x < base := fun x hx => hds x (List.mem_cons_of_mem d hx)
          have hes' : ∀ x ∈ es, x < base := fun x hx => hes x (List.mem_cons_of_mem e hx)
          rw [List.cons_lt_cons_iff, ih hrest hds' hes']
          rcases Nat.lt_trichotomy d e with hlt | rfl | hgt
          · simp [hlt, value_cons_lt hrest hds' hlt]
          · rw [value_cons, value_cons, hrest]
            simp
          · have hlater := value_cons_lt hrest.symm hes' hgt
            constructor
            · rintro (h | ⟨rfl, -⟩)
              · omega
              · omega
            · intro h
              omega

theorem digits_lt_iff {width m n : Nat} (hm : m < base ^ width) (hn : n < base ^ width) :
    digits base width m < digits base width n ↔ m < n := by
  rcases Nat.eq_zero_or_pos base with rfl | hbase
  · cases width with
    | zero =>
        rw [Nat.pow_zero] at hm hn
        simp [digits]
        omega
    | succ width =>
        rw [Nat.pow_succ] at hm
        omega
  · rw [lt_iff_value_lt (by simp) (digits_lt hbase width m) (digits_lt hbase width n),
      value_digits hm, value_digits hn]

-- A strictly increasing choice of characters keeps the order of the digits.
theorem map_lt_map_iff {α : Type*} [LinearOrder α] {f : Nat → α}
    (hf : ∀ i j, i < j → j < base → f i < f j) {ds es : List Nat} (hds : ∀ x ∈ ds, x < base)
    (hes : ∀ x ∈ es, x < base) : ds.map f < es.map f ↔ ds < es := by
  induction ds generalizing es with
  | nil => cases es <;> simp
  | cons d ds ih =>
      cases es with
      | nil => simp
      | cons e es =>
          have hd := hds d List.mem_cons_self
          have he := hes e List.mem_cons_self
          rw [List.map_cons, List.map_cons, List.cons_lt_cons_iff, List.cons_lt_cons_iff,
            ih (fun x hx => hds x (List.mem_cons_of_mem d hx)) fun x hx =>
              hes x (List.mem_cons_of_mem e hx)]
          have hfirst : f d < f e ↔ d < e := by
            refine ⟨fun h => ?_, fun h => hf d e h he⟩
            by_contra hnot
            rcases Nat.lt_or_eq_of_le (Nat.le_of_not_lt hnot) with hlt | rfl
            · exact lt_asymm h (hf e d hlt hd)
            · exact lt_irrefl _ h
          have hsame : f d = f e ↔ d = e := by
            refine ⟨fun h => ?_, fun h => by rw [h]⟩
            rcases Nat.lt_trichotomy d e with hlt | heq | hgt
            · exact absurd h (hf d e hlt he).ne
            · exact heq
            · exact absurd h.symm (hf e d hgt hd).ne
          rw [hfirst, hsame]

end Scaffold.Positional
