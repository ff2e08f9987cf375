import Mathlib.Tactic.Common

namespace Scaffold.Http

def defaultPage : Nat := 1

def defaultLimit : Nat := 20

def maxLimit : Nat := 1000

structure PageParams where
  page : Nat := defaultPage
  limit : Nat := defaultLimit
  pageOk : 1 ≤ page := by decide
  limitOk : 1 ≤ limit ∧ limit ≤ maxLimit := by decide
  deriving Repr

def PageParams.offset (params : PageParams) : Nat :=
  (params.page - 1) * params.limit

structure PageMeta where
  page : Nat
  limit : Nat
  total : Nat
  totalPages : Nat
  deriving DecidableEq, Repr

structure PageResponse (T : Type*) where
  items : List T
  info : PageMeta
  deriving DecidableEq, Repr

def calculateTotalPages (total limit : Nat) : Nat :=
  (total + limit - 1) / limit

def buildPageResponse {S T : Type*} (items : List S) (total : Nat) (pagination : PageParams)
    (itemMapper : S → T) : PageResponse T where
  items := items.map itemMapper
  info := {
    page := pagination.page
    limit := pagination.limit
    total := total
    totalPages := calculateTotalPages total pagination.limit }

section Pages

variable {total limit : Nat}

-- A page is one of the counted pages exactly when an item stands at its offset.
theorem page_le_iff (hlimit : 1 ≤ limit) {page : Nat} (hpage : 1 ≤ page) :
    page ≤ calculateTotalPages total limit ↔ (page - 1) * limit < total := by
  have hstep : page * limit = (page - 1) * limit + limit := by
    rw [← Nat.succ_mul, Nat.succ_eq_add_one, Nat.sub_add_cancel hpage]
  rw [calculateTotalPages, Nat.le_div_iff_mul_le hlimit, hstep]
  omega

theorem calculateTotalPages_eq_zero (hlimit : 1 ≤ limit) : calculateTotalPages total limit = 0 ↔
    total = 0 := by
  have hfirst : 1 ≤ calculateTotalPages total limit ↔ (1 - 1) * limit < total :=
    page_le_iff hlimit (Nat.le_refl 1)
  simp only [Nat.sub_self, Nat.zero_mul] at hfirst
  omega

-- All items are on the counted pages.
theorem total_le_pages (hlimit : 1 ≤ limit) : total ≤ calculateTotalPages total limit * limit := by
  by_contra hnot
  have hnext : calculateTotalPages total limit + 1 ≤ calculateTotalPages total limit :=
    (page_le_iff hlimit (Nat.le_add_left 1 (calculateTotalPages total limit))).mpr (by
      rw [Nat.add_sub_cancel]
      omega)
  omega

-- Consecutive slices of a list make up its beginning.
theorem flatMap_slices {α : Type*} (items : List α) (limit count : Nat) :
    ((List.range count).flatMap fun index => (items.drop (index * limit)).take limit) =
      items.take (count * limit) := by
  induction count with
  | zero => simp
  | succ count ih =>
      rw [List.range_succ, List.flatMap_append, ih, Nat.succ_mul, List.take_add]
      simp

end Pages

end Scaffold.Http
