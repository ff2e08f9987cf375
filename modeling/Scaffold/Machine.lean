import Mathlib.Logic.Function.Basic
import Mathlib.Tactic.Common

namespace Scaffold.Machine

variable {σ α : Type*} {step : σ → α → Option σ} {s t u : σ}

-- A machine is a partial step function. An action that is not enabled has no successor.
-- A schedule is a list of actions, and a run performs all of them in order.
def run (step : σ → α → Option σ) : σ → List α → Option σ
  | s, [] => some s
  | s, act :: rest => (step s act).bind fun next => run step next rest

-- A guarded step gives its guard and its successor.
theorem guarded {p : Prop} [Decidable p] (h : (if p then some s else none) = some t) : p ∧ s = t :=
  ⟨(Option.ite_none_right_eq_some.mp h).1, Option.some.inj (Option.ite_none_right_eq_some.mp h).2⟩

@[simp] theorem run_nil : run step s [] = some s := rfl

theorem run_cons (act : α) (rest : List α) :
    run step s (act :: rest) = some u ↔
      ∃ next, step s act = some next ∧ run step next rest = some u := by
  simp [run, Option.bind_eq_some_iff]

theorem run_append (first rest : List α) :
    run step s (first ++ rest) = some u ↔
      ∃ middle, run step s first = some middle ∧ run step middle rest = some u := by
  induction first generalizing s with
  | nil => simp
  | cons act first ih =>
      simp only [List.cons_append, run_cons, ih]
      constructor
      · rintro ⟨next, hnext, middle, hmiddle, hrest⟩
        exact ⟨middle, ⟨next, hnext, hmiddle⟩, hrest⟩
      · rintro ⟨middle, ⟨next, hnext, hmiddle⟩, hrest⟩
        exact ⟨next, hnext, middle, hmiddle, hrest⟩

-- `t` is a possible future of `s`.
def Reaches (step : σ → α → Option σ) (s t : σ) : Prop :=
  ∃ acts, run step s acts = some t

theorem Reaches.refl : Reaches step s s := ⟨[], rfl⟩

theorem Reaches.trans (hst : Reaches step s t) (htu : Reaches step t u) : Reaches step s u := by
  obtain ⟨first, hfirst⟩ := hst
  obtain ⟨rest, hrest⟩ := htu
  exact ⟨first ++ rest, (run_append first rest).mpr ⟨t, hfirst, hrest⟩⟩

theorem Reaches.single {a : α} (h : step s a = some t) : Reaches step s t :=
  ⟨[a], (run_cons a []).mpr ⟨t, h, rfl⟩⟩

-- What holds at the end of a run and not at its start begins to hold at one of its steps.
theorem run_switch {P : σ → Prop} {acts : List α} (h : run step s acts = some t) (hs : ¬ P s) (ht : P t) :
    ∃ before act after u v, acts = before ++ act :: after ∧ run step s before = some u ∧
      step u act = some v ∧ run step v after = some t ∧ ¬ P u ∧ P v := by
  induction acts generalizing s with
  | nil =>
      obtain rfl := Option.some.inj h
      exact absurd ht hs
  | cons act rest ih =>
      obtain ⟨next, hnext, hrest⟩ := (run_cons act rest).mp h
      by_cases hp : P next
      · exact ⟨[], act, rest, s, next, rfl, rfl, hnext, hrest, hs, hp⟩
      · obtain ⟨before, act', after, u, v, rfl, hbefore, hstep, hafter, hu, hv⟩ := ih hrest hp
        exact ⟨act :: before, act', after, u, v, rfl, (run_cons act before).mpr ⟨next, hnext, hbefore⟩,
          hstep, hafter, hu, hv⟩

-- The machine without the steps that do not meet a condition on the state and the action.
open Classical in
noncomputable def restrict (ok : σ → α → Prop) (step : σ → α → Option σ) (s : σ) (a : α) : Option σ :=
  if ok s a then step s a else none

theorem restrict_eq_some {ok : σ → α → Prop} {a : α} :
    restrict ok step s a = some t ↔ ok s a ∧ step s a = some t := by
  unfold restrict
  split
  · simp [*]
  · simp [*]

-- Every step of a run meets the condition.
def Along (step : σ → α → Option σ) (ok : σ → α → Prop) : σ → List α → Prop
  | _, [] => True
  | s, act :: rest => ok s act ∧ ∀ next, step s act = some next → Along step ok next rest

theorem along_of_forall {ok : σ → α → Prop} (h : ∀ s act, ok s act) (s : σ) (acts : List α) :
    Along step ok s acts := by
  induction acts generalizing s with
  | nil => trivial
  | cons act rest ih => exact ⟨h s act, fun next _ => ih next⟩

theorem along_cons_of_step {ok : σ → α → Prop} {act : α} {rest : List α} (h : step s act = some t) :
    Along step ok s (act :: rest) ↔ ok s act ∧ Along step ok t rest := by
  simp [Along, h]

theorem along_cons_of_stuck {ok : σ → α → Prop} {act : α} {rest : List α} (h : step s act = none) :
    Along step ok s (act :: rest) ↔ ok s act := by
  simp [Along, h]

instance decidableAlong {ok : σ → α → Prop} [∀ s act, Decidable (ok s act)] :
    ∀ (s : σ) (acts : List α), Decidable (Along step ok s acts)
  | _, [] => isTrue trivial
  | s, act :: rest =>
      match h : step s act with
      | none => decidable_of_iff (ok s act) (along_cons_of_stuck h).symm
      | some t =>
          have : Decidable (Along step ok t rest) := decidableAlong t rest
          decidable_of_iff (ok s act ∧ Along step ok t rest) (along_cons_of_step h).symm

theorem Along.after {ok : σ → α → Prop} {first rest : List α} (h : Along step ok s (first ++ rest))
    (hrun : run step s first = some t) : Along step ok s first ∧ Along step ok t rest := by
  induction first generalizing s with
  | nil =>
      obtain rfl := Option.some.inj hrun
      exact ⟨trivial, h⟩
  | cons act first ih =>
      obtain ⟨next, hnext, hfirst⟩ := (run_cons act first).mp hrun
      refine ⟨⟨h.1, fun other hother => ?_⟩, (ih (h.2 next hnext) hfirst).2⟩
      obtain rfl := Option.some.inj (hnext.symm.trans hother)
      exact (ih (h.2 next hnext) hfirst).1

theorem run_restrict {ok : σ → α → Prop} {acts : List α} (hok : Along step ok s acts)
    (h : run step s acts = some t) : run (restrict ok step) s acts = some t := by
  induction acts generalizing s with
  | nil => exact h
  | cons act rest ih =>
      obtain ⟨next, hnext, hrest⟩ := (run_cons act rest).mp h
      exact (run_cons act rest).mpr
        ⟨next, restrict_eq_some.mpr ⟨hok.1, hnext⟩, ih (hok.2 next hnext) hrest⟩

-- The invariant rule: what every step keeps, every run keeps.
theorem Reaches.invariant {inv : σ → Prop} (h : Reaches step s t)
    (hstep : ∀ s act t, inv s → step s act = some t → inv t) (hs : inv s) : inv t := by
  obtain ⟨acts, hrun⟩ := h
  induction acts generalizing s with
  | nil =>
      obtain rfl := Option.some.inj hrun
      exact hs
  | cons act rest ih =>
      obtain ⟨next, hnext, hrest⟩ := (run_cons act rest).mp hrun
      exact ih (hstep _ _ _ hs hnext) hrest

-- The rule for a relation between a state and its futures. The invariant is available
-- at every step, so the relation need not be inductive by itself.
theorem Reaches.relation {inv : σ → Prop} {r : σ → σ → Prop} (h : Reaches step s t)
    (hinv : ∀ s act t, inv s → step s act = some t → inv t) (hs : inv s)
    (hrefl : ∀ s, r s s) (htrans : ∀ s t u, r s t → r t u → r s u)
    (hstep : ∀ s act t, inv s → step s act = some t → r s t) : r s t := by
  obtain ⟨acts, hrun⟩ := h
  induction acts generalizing s with
  | nil =>
      obtain rfl := Option.some.inj hrun
      exact hrefl s
  | cons act rest ih =>
      obtain ⟨next, hnext, hrest⟩ := (run_cons act rest).mp hrun
      exact htrans _ _ _ (hstep _ _ _ hs hnext) (ih (hinv _ _ _ hs hnext) hrest)

end Scaffold.Machine
