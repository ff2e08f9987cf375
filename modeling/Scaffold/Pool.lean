import Scaffold.Machine

namespace Scaffold

open Machine

-- Tasks that share one state and own one local state each. A task runs undisturbed from one
-- await to the next, so a step replaces the shared state and the local state of one task.
structure Pool (ι S L : Type*) where
  shared : S
  loc : ι → L

namespace Pool

variable {ι S L A E : Type*} [DecidableEq ι]

def move (p : Pool ι S L) (i : ι) (s : S) (l : L) : Pool ι S L where
  shared := s
  loc := Function.update p.loc i l

@[simp] theorem move_shared (p : Pool ι S L) (i : ι) (s : S) (l : L) :
    (p.move i s l).shared = s := rfl

@[simp] theorem move_loc_self (p : Pool ι S L) (i : ι) (s : S) (l : L) :
    (p.move i s l).loc i = l := by
  simp [move]

theorem move_loc_ne (p : Pool ι S L) {i j : ι} (s : S) (l : L) (h : j ≠ i) :
    (p.move i s l).loc j = p.loc j := by
  simp [move, h]

-- What the moved task satisfies now and the others satisfied before, every task satisfies.
theorem forall_loc_move {P : ι → L → Prop} {p : Pool ι S L} {i : ι} {s : S} {l : L} (hself : P i l)
    (hothers : ∀ j, j ≠ i → P j (p.loc j)) : ∀ j, P j ((p.move i s l).loc j) :=
  (Function.forall_update_iff p.loc P).mpr ⟨hself, hothers⟩

-- `task` is what a task does from its current await on, `env` what happens outside every task.
def step (task : ι → S → L → A → Option (S × L)) (env : S → E → Option S) (p : Pool ι S L) :
    (ι × A) ⊕ E → Option (Pool ι S L)
  | .inl (i, act) => (task i p.shared (p.loc i) act).map fun next => p.move i next.1 next.2
  | .inr event => (env p.shared event).map fun s => { p with shared := s }

variable {task : ι → S → L → A → Option (S × L)} {env : S → E → Option S}

theorem step_task {p q : Pool ι S L} {i : ι} {act : A}
    (h : p.step task env (.inl (i, act)) = some q) :
    ∃ s l, task i p.shared (p.loc i) act = some (s, l) ∧ q = p.move i s l := by
  obtain ⟨next, hnext, hq⟩ := Option.map_eq_some_iff.mp h
  exact ⟨next.1, next.2, hnext, hq.symm⟩

theorem step_of_task {p : Pool ι S L} {i : ι} {act : A} {s : S} {l : L}
    (h : task i p.shared (p.loc i) act = some (s, l)) :
    p.step task env (.inl (i, act)) = some (p.move i s l) := by
  simp [step, h]

theorem step_env {p q : Pool ι S L} {event : E}
    (h : p.step task env (.inr event) = some q) :
    ∃ s, env p.shared event = some s ∧ q = { p with shared := s } := by
  obtain ⟨s, hs, hq⟩ := Option.map_eq_some_iff.mp h
  exact ⟨s, hs, hq.symm⟩

-- One task alone with the environment.
def soloStep (task : ι → S → L → A → Option (S × L)) (env : S → E → Option S) (i : ι) (c : S × L) :
    A ⊕ E → Option (S × L)
  | .inl act => task i c.1 c.2 act
  | .inr event => (env c.1 event).map fun s => (s, c.2)

theorem move_move (p : Pool ι S L) (i : ι) (s s' : S) (l l' : L) :
    (p.move i s l).move i s' l' = p.move i s' l' := by
  simp [move]

theorem move_self (p : Pool ι S L) (i : ι) : p.move i p.shared (p.loc i) = p := by
  simp [move]

-- What a task does alone, it can do in a pool in which the other tasks wait.
theorem reaches_of_solo {p : Pool ι S L} {i : ι} {s : S} {l : L}
    (h : Reaches (soloStep task env i) (p.shared, p.loc i) (s, l)) :
    Reaches (step task env) p (p.move i s l) := by
  obtain ⟨acts, hrun⟩ := h
  induction acts generalizing p with
  | nil =>
      obtain ⟨rfl, rfl⟩ := Prod.mk.inj (Option.some.inj hrun)
      rw [move_self]
      exact .refl
  | cons act rest ih =>
      obtain ⟨⟨s', l'⟩, hnext, hrest⟩ := (run_cons act rest).mp hrun
      have hmoved : Reaches (step task env) (p.move i s' l') (p.move i s l) := by
        rw [← move_move p i s' s l' l]
        exact ih (by simpa using hrest)
      cases act with
      | inl act =>
          have hstep : p.step task env (.inl (i, act)) = some (p.move i s' l') := step_of_task hnext
          exact (Reaches.single hstep).trans hmoved
      | inr event =>
          obtain ⟨s'', henv, heq⟩ := Option.map_eq_some_iff.mp hnext
          obtain ⟨rfl, rfl⟩ := Prod.mk.inj heq
          have hstep : p.step task env (.inr event) = some (p.move i s'' (p.loc i)) := by
            have hact : env p.shared event = some s'' := henv
            simp [step, hact, move]
          exact (Reaches.single hstep).trans hmoved

-- Rely and guarantee for a pool. `good` is an invariant of the shared state, `ok` what holds
-- of a task at its await, and `rely` what the others may do to the shared state meanwhile.
structure Discipline (task : ι → S → L → A → Option (S × L)) (env : S → E → Option S) where
  good : S → Prop
  ok : ι → S → L → Prop
  rely : ι → S → S → Prop
  stable : ∀ i s s' l, rely i s s' → ok i s l → ok i s' l
  task_good : ∀ i s l act s' l', good s → ok i s l → task i s l act = some (s', l') → good s'
  task_ok : ∀ i s l act s' l', good s → ok i s l → task i s l act = some (s', l') → ok i s' l'
  task_rely : ∀ i s l act s' l', good s → ok i s l → task i s l act = some (s', l') →
    ∀ j, j ≠ i → rely j s s'
  env_good : ∀ s event s', good s → env s event = some s' → good s'
  env_rely : ∀ s event s', good s → env s event = some s' → ∀ j, rely j s s'

namespace Discipline

variable (d : Discipline task env)

def Inv (p : Pool ι S L) : Prop :=
  d.good p.shared ∧ ∀ i, d.ok i p.shared (p.loc i)

theorem inv_step (p : Pool ι S L) (act : (ι × A) ⊕ E) (q : Pool ι S L) (hp : d.Inv p)
    (h : p.step task env act = some q) : d.Inv q := by
  cases act with
  | inl act =>
      obtain ⟨i, act⟩ := act
      obtain ⟨s, l, hl, rfl⟩ := step_task h
      refine ⟨d.task_good _ _ _ _ _ _ hp.1 (hp.2 i) hl, fun j => ?_⟩
      by_cases hj : j = i
      · subst hj
        simpa using d.task_ok _ _ _ _ _ _ hp.1 (hp.2 j) hl
      · rw [move_loc_ne _ _ _ hj]
        exact d.stable _ _ _ _ (d.task_rely _ _ _ _ _ _ hp.1 (hp.2 i) hl j hj) (hp.2 j)
  | inr event =>
      obtain ⟨s, hs, rfl⟩ := step_env h
      exact ⟨d.env_good _ _ _ hp.1 hs, fun j => d.stable _ _ _ _ (d.env_rely _ _ _ hp.1 hs j) (hp.2 j)⟩

theorem inv_reaches {p q : Pool ι S L} (h : Reaches (step task env) p q) (hp : d.Inv p) :
    d.Inv q :=
  h.invariant d.inv_step hp

end Discipline

end Pool

end Scaffold
