import Mathlib.Data.List.Basic
import Mathlib.Data.List.Forall2
import Mathlib.Data.List.Perm.Basic
import Mathlib.Tactic.Common

namespace Scaffold.Raising

-- Code that may raise: what a statement that returned or raised says about its parts.

variable {α β ε : Type} {error : ε}

theorem bind_ok {x : Except ε α} {f : α → Except ε β} {b : β} (h : x >>= f = .ok b) :
    ∃ a, x = .ok a ∧ f a = .ok b := by
  cases x with
  | error error => cases h
  | ok a => exact ⟨a, rfl, h⟩

theorem bind_error {x : Except ε α} {f : α → Except ε β} (h : x >>= f = .error error) :
    x = .error error ∨ ∃ a, x = .ok a ∧ f a = .error error := by
  cases x with
  | error error' => exact .inl (congrArg Except.error (Except.error.inj h))
  | ok a => exact .inr ⟨a, rfl, h⟩

section Loops

variable {l : List α}

theorem forM_ok {f : α → Except ε Unit} (h : l.forM f = .ok ()) : ∀ x ∈ l, f x = .ok () := by
  induction l with
  | nil => exact fun _ hx => nomatch hx
  | cons first l ih =>
      have hbind : (f first >>= fun _ => l.forM f) = .ok () := h
      obtain ⟨_, hfirst, hrest⟩ := bind_ok hbind
      intro x hx
      obtain rfl | hx := List.mem_cons.mp hx
      · exact hfirst
      · exact ih hrest x hx

theorem forM_error {f : α → Except ε Unit} (h : l.forM f = .error error) : ∃ x ∈ l, f x = .error error := by
  induction l with
  | nil => cases h
  | cons first l ih =>
      have hbind : (f first >>= fun _ => l.forM f) = .error error := h
      obtain hfirst | ⟨_, -, hrest⟩ := bind_error hbind
      · exact ⟨first, List.mem_cons_self, hfirst⟩
      · obtain ⟨x, hx, herror⟩ := ih hrest
        exact ⟨x, List.mem_cons_of_mem _ hx, herror⟩

theorem forM_cons (f : α → Except ε Unit) (first : α) (l : List α) :
    (first :: l).forM f = (f first >>= fun _ => l.forM f) := rfl

-- A loop runs to its end exactly when no item raises, and it raises what the first such item does.
theorem forM_eq_ok {f : α → Except ε Unit} : l.forM f = .ok () ↔ ∀ x ∈ l, f x = .ok () := by
  refine ⟨forM_ok, fun h => ?_⟩
  induction l with
  | nil => rfl
  | cons first l ih =>
      rw [forM_cons, h first List.mem_cons_self]
      exact ih fun x hx => h x (List.mem_cons_of_mem first hx)

theorem forM_eq_error {f : α → Except ε Unit} : l.forM f = .error error ↔
    ∃ before x after, l = before ++ x :: after ∧ (∀ y ∈ before, f y = .ok ()) ∧ f x = .error error := by
  constructor
  · intro h
    induction l with
    | nil => cases h
    | cons first l ih =>
        rw [forM_cons] at h
        obtain hfirst | ⟨_, hfirst, hrest⟩ := bind_error h
        · exact ⟨[], first, l, rfl, nofun, hfirst⟩
        · obtain ⟨before, x, after, rfl, hbefore, hx⟩ := ih hrest
          refine ⟨first :: before, x, after, rfl, fun y hy => ?_, hx⟩
          obtain rfl | hy := List.mem_cons.mp hy
          · exact hfirst
          · exact hbefore y hy
  · rintro ⟨before, x, after, rfl, hbefore, hx⟩
    induction before with
    | nil =>
        rw [List.nil_append, forM_cons, hx]
        rfl
    | cons first before ih =>
        rw [List.cons_append, forM_cons, hbefore first List.mem_cons_self]
        exact ih fun y hy => hbefore y (List.mem_cons_of_mem first hy)

variable {f : α → Except ε β} {first : α} {results : List β}

theorem mapM_cons_ok : (first :: l).mapM f = .ok results ↔
    ∃ result rest, f first = .ok result ∧ l.mapM f = .ok rest ∧ results = result :: rest := by
  rw [List.mapM_cons]
  constructor
  · intro h
    obtain ⟨result, hfirst, h⟩ := bind_ok h
    obtain ⟨rest, hrest, h⟩ := bind_ok h
    exact ⟨result, rest, hfirst, hrest, (Except.ok.inj h).symm⟩
  · rintro ⟨result, rest, hfirst, hrest, rfl⟩
    rw [hfirst, hrest]
    rfl

theorem forall₂_of_mapM_ok (h : l.mapM f = .ok results) :
    List.Forall₂ (fun x result => f x = .ok result) l results := by
  induction l generalizing results with
  | nil =>
      obtain rfl := Except.ok.inj h
      exact .nil
  | cons first l ih =>
      obtain ⟨result, rest, hfirst, hrest, rfl⟩ := mapM_cons_ok.mp h
      exact .cons hfirst (ih hrest)

-- A list is gone through to its end exactly when no item raises.
theorem mapM_isOk : (∃ results, l.mapM f = .ok results) ↔ ∀ x ∈ l, ∃ result, f x = .ok result := by
  induction l with
  | nil => exact ⟨fun _ x hx => absurd hx List.not_mem_nil, fun _ => ⟨[], rfl⟩⟩
  | cons first l ih =>
      rw [List.forall_mem_cons, ← ih]
      constructor
      · rintro ⟨results, h⟩
        obtain ⟨result, rest, hfirst, hrest, -⟩ := mapM_cons_ok.mp h
        exact ⟨⟨result, hfirst⟩, rest, hrest⟩
      · rintro ⟨⟨result, hfirst⟩, rest, hrest⟩
        exact ⟨result :: rest, mapM_cons_ok.mpr ⟨result, rest, hfirst, hrest, rfl⟩⟩

theorem mem_of_mapM_ok (h : l.mapM f = .ok results) : ∀ result ∈ results, ∃ x ∈ l, f x = .ok result := by
  induction l generalizing results with
  | nil =>
      obtain rfl := Except.ok.inj h
      exact fun _ hresult => nomatch hresult
  | cons first l ih =>
      obtain ⟨result, rest, hfirst, hrest, rfl⟩ := mapM_cons_ok.mp h
      intro other hother
      obtain rfl | hother := List.mem_cons.mp hother
      · exact ⟨first, List.mem_cons_self, hfirst⟩
      · obtain ⟨x, hx, hresult⟩ := ih hrest other hother
        exact ⟨x, List.mem_cons_of_mem _ hx, hresult⟩

theorem mapM_ok_mem (h : l.mapM f = .ok results) {x : α} (hx : x ∈ l) :
    ∃ result ∈ results, f x = .ok result := by
  induction l generalizing results with
  | nil => cases hx
  | cons first l ih =>
      obtain ⟨result, rest, hfirst, hrest, rfl⟩ := mapM_cons_ok.mp h
      obtain rfl | hx := List.mem_cons.mp hx
      · exact ⟨result, List.mem_cons_self, hfirst⟩
      · obtain ⟨other, hother, hresult⟩ := ih hrest hx
        exact ⟨other, List.mem_cons_of_mem _ hother, hresult⟩

theorem mapM_error (h : l.mapM f = .error error) : ∃ x ∈ l, f x = .error error := by
  induction l with
  | nil => cases h
  | cons first l ih =>
      rw [List.mapM_cons] at h
      obtain hfirst | ⟨_, -, h⟩ := bind_error h
      · exact ⟨first, List.mem_cons_self, hfirst⟩
      · obtain hrest | ⟨_, -, h⟩ := bind_error h
        · obtain ⟨x, hx, herror⟩ := ih hrest
          exact ⟨x, List.mem_cons_of_mem _ hx, herror⟩
        · cases h

-- The order of a list decides the order of the results only.
theorem mapM_perm {l' : List α} (hl : l.Perm l') (h : l.mapM f = .ok results) :
    ∃ results', l'.mapM f = .ok results' ∧ results.Perm results' := by
  induction hl generalizing results with
  | nil => exact ⟨results, h, .refl _⟩
  | cons first _ ih =>
      obtain ⟨result, rest, hfirst, hrest, rfl⟩ := mapM_cons_ok.mp h
      obtain ⟨rest', hrest', hperm⟩ := ih hrest
      exact ⟨result :: rest', mapM_cons_ok.mpr ⟨result, rest', hfirst, hrest', rfl⟩, hperm.cons result⟩
  | swap first second l =>
      obtain ⟨a, later, ha, hlater, rfl⟩ := mapM_cons_ok.mp h
      obtain ⟨b, rest, hb, hrest, rfl⟩ := mapM_cons_ok.mp hlater
      exact ⟨b :: a :: rest,
        mapM_cons_ok.mpr ⟨b, a :: rest, hb, mapM_cons_ok.mpr ⟨a, rest, ha, hrest, rfl⟩, rfl⟩,
        .swap b a rest⟩
  | trans _ _ ih ih' =>
      obtain ⟨middle, hmiddle, hperm⟩ := ih h
      obtain ⟨results', hresults, hperm'⟩ := ih' hmiddle
      exact ⟨results', hresults, hperm.trans hperm'⟩

end Loops

end Scaffold.Raising
