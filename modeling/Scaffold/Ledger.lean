import Mathlib.Data.List.Nodup
import Mathlib.Tactic.Common

namespace Scaffold.Ledger

-- Items are appended to a list and known by their positions, some of them are live, and an index
-- maps the keys of the live ones to the positions.

section Positions

variable {α : Type*}

theorem getElem?_concat (xs : List α) (x y : α) (i : Nat) :
    (xs ++ [x])[i]? = some y ↔ xs[i]? = some y ∨ i = xs.length ∧ y = x := by
  rcases Nat.lt_trichotomy i xs.length with hlt | rfl | hgt
  · rw [List.getElem?_append_left hlt]
    constructor
    · exact .inl
    · rintro (h | ⟨rfl, -⟩)
      · exact h
      · omega
  · simp [eq_comm]
  · rw [List.getElem?_eq_none (by simp; omega), List.getElem?_eq_none (by omega)]
    simp
    omega

theorem getElem?_modify_some {xs : List α} {f : α → α} {y : α} {i j : Nat} :
    (xs.modify i f)[j]? = some y ↔ ∃ x, xs[j]? = some x ∧ y = if i = j then f x else x := by
  rw [List.getElem?_modify]
  constructor
  · intro h
    obtain ⟨x, hx, hy⟩ := Option.map_eq_some_iff.mp h
    refine ⟨x, hx, hy.symm.trans ?_⟩
    split <;> rfl
  · rintro ⟨x, hx, rfl⟩
    rw [hx]
    split <;> rfl

theorem getElem?_of_prefix {xs ys : List α} {x : α} {i : Nat} (h : xs <+: ys) (hx : xs[i]? = some x) :
    ys[i]? = some x := by
  obtain ⟨new, rfl⟩ := h
  rw [List.getElem?_append_left (List.getElem?_eq_some_iff.mp hx).1]
  exact hx

end Positions

structure Indexes {α κ : Type*} (index : List (κ × Nat)) (items : List α) (key : α → κ) (live : α → Prop) :
    Prop where
  mem : ∀ k i, (k, i) ∈ index ↔ ∃ x, items[i]? = some x ∧ key x = k ∧ live x
  keys : (index.map (·.1)).Nodup

namespace Indexes

variable {α κ : Type*} {index : List (κ × Nat)} {items : List α} {key : α → κ} {live live' : α → Prop}

theorem empty (h : ∀ x ∈ items, ¬ live x) : Indexes [] items key live where
  mem k i := by
    refine ⟨fun hm => (nomatch hm), fun ⟨x, hx, _, hlive⟩ => ?_⟩
    exact absurd hlive (h x (List.mem_of_getElem? hx))
  keys := .nil

-- Two live items with one key stand at the same position.
theorem unique (h : Indexes index items key live) {x y : α} {i j : Nat} (hx : items[i]? = some x)
    (hy : items[j]? = some y) (hlive : live x) (hlive' : live y) (hkey : key x = key y) : i = j := by
  have hi := (h.mem (key x) i).mpr ⟨x, hx, rfl, hlive⟩
  have hj := (h.mem (key x) j).mpr ⟨y, hy, hkey.symm, hlive'⟩
  exact (Prod.mk.inj (List.inj_on_of_nodup_map h.keys hi hj rfl)).2

theorem append_other (h : Indexes index items key live) {x : α} (hx : ¬ live x) :
    Indexes index (items ++ [x]) key live where
  mem k i := by
    rw [h.mem]
    constructor
    · rintro ⟨y, hy, hrest⟩
      exact ⟨y, (getElem?_concat _ _ _ _).mpr (.inl hy), hrest⟩
    · rintro ⟨y, hy, hkey, hlive⟩
      obtain hy | ⟨-, rfl⟩ := (getElem?_concat _ _ _ _).mp hy
      · exact ⟨y, hy, hkey, hlive⟩
      · exact absurd hlive hx
  keys := h.keys

theorem append_live (h : Indexes index items key live) {x : α} (hx : live x)
    (hnew : key x ∉ index.map (·.1)) :
    Indexes (index ++ [(key x, items.length)]) (items ++ [x]) key live where
  mem k i := by
    rw [List.mem_append, List.mem_singleton, h.mem]
    constructor
    · rintro (⟨y, hy, hrest⟩ | heq)
      · exact ⟨y, (getElem?_concat _ _ _ _).mpr (.inl hy), hrest⟩
      · obtain ⟨rfl, rfl⟩ := Prod.mk.inj heq
        exact ⟨x, (getElem?_concat _ _ _ _).mpr (.inr ⟨rfl, rfl⟩), rfl, hx⟩
    · rintro ⟨y, hy, hkey, hlive⟩
      obtain hy | ⟨rfl, rfl⟩ := (getElem?_concat _ _ _ _).mp hy
      · exact .inl ⟨y, hy, hkey, hlive⟩
      · rw [hkey]
        exact .inr rfl
  keys := by
    rw [List.map_append]
    refine List.Nodup.append h.keys (List.nodup_singleton _) ?_
    rw [List.map_singleton, List.disjoint_singleton]
    exact hnew

-- An item that was not live changes and is not live afterwards.
theorem modify_other (h : Indexes index items key live) {x : α} {f : α → α} {i : Nat}
    (hx : items[i]? = some x)
    (hlive : ¬ live x) (hf : ¬ live (f x)) : Indexes index (items.modify i f) key live where
  mem k j := by
    rw [h.mem]
    constructor
    · rintro ⟨y, hy, hkey, hy'⟩
      have hne : i ≠ j := by
        rintro rfl
        obtain rfl := Option.some.inj (hx.symm.trans hy)
        exact hlive hy'
      exact ⟨y, getElem?_modify_some.mpr ⟨y, hy, (if_neg hne).symm⟩, hkey, hy'⟩
    · rintro ⟨y, hy, hkey, hy'⟩
      obtain ⟨z, hz, rfl⟩ := getElem?_modify_some.mp hy
      by_cases hij : i = j
      · subst hij
        obtain rfl := Option.some.inj (hx.symm.trans hz)
        rw [if_pos rfl] at hy'
        exact absurd hy' hf
      · rw [if_neg hij] at hkey hy'
        exact ⟨z, hz, hkey, hy'⟩
  keys := h.keys

-- An item that was live changes, is not live afterwards, and its key leaves the index.
theorem modify_live [DecidableEq κ] (h : Indexes index items key live) {x : α} {f : α → α} {i : Nat}
    (hx : items[i]? = some x) (hlive : live x) (hf : ¬ live (f x)) :
    Indexes (index.filter (·.1 ≠ key x)) (items.modify i f) key live where
  mem k j := by
    rw [List.mem_filter, h.mem, decide_eq_true_eq]
    constructor
    · rintro ⟨⟨y, hy, rfl, hy'⟩, hne⟩
      have hij : i ≠ j := by
        rintro rfl
        obtain rfl := Option.some.inj (hx.symm.trans hy)
        exact hne rfl
      exact ⟨y, getElem?_modify_some.mpr ⟨y, hy, (if_neg hij).symm⟩, rfl, hy'⟩
    · rintro ⟨y, hy, hkey, hy'⟩
      obtain ⟨z, hz, rfl⟩ := getElem?_modify_some.mp hy
      by_cases hij : i = j
      · subst hij
        obtain rfl := Option.some.inj (hx.symm.trans hz)
        rw [if_pos rfl] at hy'
        exact absurd hy' hf
      · rw [if_neg hij] at hkey hy'
        refine ⟨⟨z, hz, hkey, hy'⟩, fun hsame => hij ?_⟩
        exact h.unique hx hz hlive hy' (hsame.symm.trans hkey.symm)
  keys := h.keys.sublist (List.filter_sublist.map _)

end Indexes

end Scaffold.Ledger
