import Scaffold.Worker.Executor.Theorems
import Scaffold.Worker.Fleet

namespace Scaffold.Worker

open Queue (FailedJobRecord)

variable {D F I T : Type} [DecidableEq I] [DecidableEq T] {config : ExecutorConfig D} {home : T → I}
  {t : T} {s s' : FailureStore D F I T} {l l' : Execution D F}

-- The handler runs behind the resolver.
def ExecPhase.isAttempt : ExecPhase D F → Bool
  | .attempting _ _ _ => true
  | .sleeping _ _ _ => true
  | _ => false

def AttemptOk (l : Execution D F) : Prop :=
  l.resolved = false → l.last = none ∧ l.phase.isAttempt = false

-- What a step of an execution does to its delivery, its calls and the table.
structure ExecGoes (s s' : FailureStore D F I T) (l l' : Execution D F) (w : Received D) : Prop where
  work : l'.phase.work = some w
  acknowledges : l.acknowledges ≤ l'.acknowledges
  attempts : AttemptOk l → AttemptOk l'
  rows : s'.records = s.records ∨
    ∃ record, l.phase = .inserting w record ∧ s'.records = (insertRecord s record).records

section Parts

variable {w : Received D}

omit [DecidableEq I] in
theorem goes_fail (l₀ : Execution D F) (error : ExecError) (hacks : l₀.acknowledges = l.acknowledges)
    (hok : AttemptOk l → l₀.resolved = false → l₀.last = none) :
    ExecGoes s (fail s t l₀ w error).1 l (fail s t l₀ w error).2 w where
  work := rfl
  acknowledges := Nat.le_of_eq hacks.symm
  attempts h hresolved := ⟨hok h hresolved, rfl⟩
  rows := .inl rfl

omit [DecidableEq I] [DecidableEq T] in
theorem goes_move {phase : ExecPhase D F} (hwork : phase.work = some w) (hphase : phase.isAttempt = false) :
    ExecGoes s s l { l with phase := phase } w where
  work := hwork
  acknowledges := Nat.le_refl _
  attempts h hresolved := ⟨(h hresolved).1, hphase⟩
  rows := .inl rfl

omit [DecidableEq I] [DecidableEq T] in
theorem goes_acknowledge (hrows : s'.records = s.records) :
    ExecGoes s (callAcknowledge s' l w).1 l (callAcknowledge s' l w).2 w where
  work := rfl
  acknowledges := Nat.le_succ _
  attempts h hresolved := ⟨(h hresolved).1, rfl⟩
  rows := .inl hrows

omit [DecidableEq I] [DecidableEq T] in
theorem goes_proceed : ExecGoes s (proceed s l w).1 l (proceed s l w).2 w := by
  unfold proceed
  split
  · exact goes_move rfl rfl
  · exact goes_move rfl rfl

omit [DecidableEq I] [DecidableEq T] in
theorem goes_lookUp : ExecGoes s (lookUp s l w).1 l (lookUp s l w).2 w := by
  unfold lookUp
  split
  · exact goes_move rfl rfl
  · exact goes_proceed

omit [DecidableEq I] in
theorem goes_begin (delivery : Delivery) :
    ExecGoes s (begin config s t l delivery).1 l (begin config s t l delivery).2 (received config delivery) := by
  unfold begin received
  cases config.decode delivery.payload with
  | error error =>
      cases error with
      | invalidMessage => exact goes_lookUp
      | raised => exact goes_fail l .decoder rfl fun h hresolved => (h hresolved).1
  | ok message => exact goes_lookUp

omit [DecidableEq I] in
theorem goes_resolve (answer : Resolution) :
    ExecGoes s (resolve s t l w answer).1 l (resolve s t l w answer).2 w := by
  cases answer with
  | binding policy => exact ⟨rfl, Nat.le_refl _, fun _ => nofun, .inl rfl⟩
  | unknownJob => exact ⟨rfl, Nat.le_refl _, fun _ => nofun, .inl rfl⟩
  | unsupportedJobVersion => exact ⟨rfl, Nat.le_refl _, fun _ => nofun, .inl rfl⟩
  | jobDefinitionError => exact goes_fail { l with resolved := true } .jobDefinition rfl nofun
  | raised => exact goes_fail { l with resolved := true } .raised rfl nofun

omit [DecidableEq I] in
theorem goes_attemptEnds {policy : JobPolicy} {attempt : Nat} (outcome : AttemptOutcome F)
    (hphase : l.phase = .attempting w policy attempt) :
    ExecGoes s (attemptEnds s t l w policy attempt outcome).1 l
      (attemptEnds s t l w policy attempt outcome).2 w := by
  have hnever : ∀ {l₁ : Execution D F}, l₁.resolved = l.resolved → AttemptOk l → AttemptOk l₁ := by
    intro l₁ hsame h hresolved
    have hnot := (h (hsame.symm.trans hresolved)).2
    rw [hphase] at hnot
    cases hnot
  unfold attemptEnds
  split
  · exact ⟨rfl, Nat.le_refl _, hnever rfl, .inl rfl⟩
  · exact ⟨rfl, Nat.le_refl _, hnever rfl, .inl rfl⟩
  · exact ⟨rfl, Nat.le_refl _, hnever rfl, .inl rfl⟩

omit [DecidableEq I] [DecidableEq T] in
theorem goes_finish (result : ExecutionResult F) (now : D) :
    ExecGoes s (finish config s l w result now).1 l (finish config s l w result now).2 w := by
  unfold finish
  split
  · exact goes_acknowledge rfl
  · exact goes_move rfl rfl

omit [DecidableEq I] in
theorem goes_raises {applied : Bool} (h : raises s t l applied = some (s', l')) :
    ∃ w, l.phase.work = some w ∧ ExecGoes s s' l l' w := by
  have hfail : ∀ (w : Received D) error, fail s t l w error = (s', l') → ExecGoes s s' l l' w := by
    intro w error hnext
    obtain ⟨rfl, rfl⟩ := Prod.mk.inj hnext
    exact goes_fail l error rfl fun hok hresolved => (hok hresolved).1
  unfold raises at h
  cases hphase : l.phase with
  | idle =>
      rw [hphase] at h
      cases h
  | finding w =>
      rw [hphase] at h
      exact ⟨w, rfl, hfail w _ (Option.some.inj h)⟩
  | found w record =>
      rw [hphase] at h
      exact ⟨w, rfl, hfail w _ (Option.some.inj h)⟩
  | resolving w =>
      rw [hphase] at h
      cases h
  | attempting w policy attempt =>
      rw [hphase] at h
      cases h
  | sleeping w policy attempt =>
      rw [hphase] at h
      exact ⟨w, rfl, hfail w _ (Option.some.inj h)⟩
  | finishing w result =>
      rw [hphase] at h
      cases h
  | saving w record =>
      rw [hphase] at h
      exact ⟨w, rfl, hfail w _ (Option.some.inj h)⟩
  | inserting w record =>
      rw [hphase] at h
      dsimp only at h
      split_ifs at h
      · obtain ⟨rfl, rfl⟩ := Prod.mk.inj (Option.some.inj h)
        exact ⟨w, rfl, rfl, Nat.le_refl _,
          fun hok hresolved => ⟨(hok hresolved).1, rfl⟩, .inr ⟨record, hphase, rfl⟩⟩
      · exact ⟨w, rfl, hfail w _ (Option.some.inj h)⟩
  | inserted w record =>
      rw [hphase] at h
      exact ⟨w, rfl, hfail w _ (Option.some.inj h)⟩
  | refinding w record =>
      rw [hphase] at h
      exact ⟨w, rfl, hfail w _ (Option.some.inj h)⟩
  | refound w record seen =>
      rw [hphase] at h
      exact ⟨w, rfl, hfail w _ (Option.some.inj h)⟩
  | acknowledging w =>
      rw [hphase] at h
      exact ⟨w, rfl, hfail w _ (Option.some.inj h)⟩
  | done w outcome =>
      rw [hphase] at h
      cases h

end Parts

theorem execStep_goes {act : ExecAct D F} (h : execStep config home t s l act = some (s', l')) :
    ∃ w, ExecGoes s s' l l' w ∧
      (l.phase.work = some w ∨ ∃ delivery, l.phase = .idle ∧ act = .execute delivery ∧
        w = received config delivery) := by
  obtain ⟨phase, hphase, hmove⟩ := execMove_of_step h
  rw [hphase]
  cases hmove with
  | execute delivery => exact ⟨_, goes_begin delivery, .inr ⟨delivery, rfl, rfl, rfl⟩⟩
  | find w => exact ⟨w, ⟨rfl, Nat.le_refl _, fun h hresolved => ⟨(h hresolved).1, rfl⟩, .inl rfl⟩, .inl rfl⟩
  | refind w record =>
      exact ⟨w, ⟨rfl, Nat.le_refl _, fun h hresolved => ⟨(h hresolved).1, rfl⟩, .inl rfl⟩, .inl rfl⟩
  | known w row => exact ⟨w, goes_acknowledge rfl, .inl rfl⟩
  | unknown w => exact ⟨w, goes_proceed, .inl rfl⟩
  | inserted w record => exact ⟨w, goes_acknowledge rfl, .inl rfl⟩
  | present w record row => exact ⟨w, goes_acknowledge rfl, .inl rfl⟩
  | absent w record =>
      exact ⟨w, goes_fail l .integrity rfl fun h hresolved => (h hresolved).1, .inl rfl⟩
  | resolve w answer => exact ⟨w, goes_resolve answer, .inl rfl⟩
  | attemptEnds w policy attempt outcome => exact ⟨w, goes_attemptEnds outcome hphase, .inl rfl⟩
  | slept w policy attempt =>
      refine ⟨w, ⟨rfl, Nat.le_refl _, fun h hresolved => ?_, .inl rfl⟩, .inl rfl⟩
      have hnot := (h hresolved).2
      rw [hphase] at hnot
      cases hnot
  | finish w result now => exact ⟨w, goes_finish result now, .inl rfl⟩
  | acquire w record hfree =>
      exact ⟨w, ⟨rfl, Nat.le_refl _, fun h hresolved => ⟨(h hresolved).1, rfl⟩, .inl rfl⟩, .inl rfl⟩
  | commit w record hnone =>
      refine ⟨w, ⟨rfl, Nat.le_refl _, fun h hresolved => ⟨(h hresolved).1, rfl⟩, ?_⟩, .inl rfl⟩
      exact .inr ⟨record, hphase, rfl⟩
  | integrityError w record => exact ⟨w, goes_move rfl rfl, .inl rfl⟩
  | acknowledged w => exact ⟨w, goes_move rfl rfl, .inl rfl⟩
  | raises applied h =>
      obtain ⟨w, hwork, hgoes⟩ := goes_raises h
      exact ⟨w, hgoes, .inl (hphase ▸ hwork)⟩

-- A marked delivery whose record is in the table is only acknowledged.
theorem onlyAcknowledges_step {act : ExecAct D F} (hl : OnlyAcknowledges l)
    (hmarked : ∀ delivery, act = .execute delivery → delivery.possiblyRedelivered = true)
    (hrow : ∀ w, l.phase.work = some w → (s.records (failureId config w)).isSome)
    (h : execStep config home t s l act = some (s', l')) : OnlyAcknowledges l' := by
  obtain ⟨hresolved, hlast, hphases⟩ := hl
  obtain ⟨phase, hphase, hmove⟩ := execMove_of_step h
  rw [hphase] at hphases hrow
  -- the phases of the other moves are not among those of such an execution
  cases hmove with
  | execute delivery =>
      have hfinding : ∀ w : Received D, w.delivery = delivery →
          lookUp s l w = (s, { l with phase := .finding w }) := by
        rintro w rfl
        exact if_pos (hmarked _ rfl)
      unfold begin
      split
      · exact ⟨hresolved, hlast, trivial⟩
      · rw [hfinding _ rfl]
        exact ⟨hresolved, hlast, trivial⟩
      · rw [hfinding _ rfl]
        exact ⟨hresolved, hlast, trivial⟩
  | find w =>
      obtain ⟨record, hrecord⟩ := Option.isSome_iff_exists.mp (hrow w rfl)
      refine ⟨hresolved, hlast, ?_⟩
      dsimp only
      rw [hrecord]
      trivial
  | refind w record => exact hphases.elim
  | known w row => exact ⟨hresolved, hlast, trivial⟩
  | unknown w => exact hphases.elim
  | inserted w record => exact hphases.elim
  | present w record row => exact hphases.elim
  | absent w record => exact hphases.elim
  | resolve w answer => exact hphases.elim
  | attemptEnds w policy attempt outcome => exact hphases.elim
  | slept w policy attempt => exact hphases.elim
  | finish w result now => exact hphases.elim
  | acquire w record hfree => exact hphases.elim
  | commit w record hnone => exact hphases.elim
  | integrityError w record => exact hphases.elim
  | acknowledged w => exact ⟨hresolved, hlast, trivial⟩
  | raises applied h =>
      have hfail : ∀ (w : Received D) (s₀ : FailureStore D F I T) error, fail s₀ t l w error = (s', l') →
          OnlyAcknowledges l' := by
        intro w s₀ error hnext
        obtain ⟨-, rfl⟩ := Prod.mk.inj hnext
        exact ⟨hresolved, hlast, trivial⟩
      unfold raises at h
      split at h <;> first
        | exact hfail _ _ _ (Option.some.inj h)
        | (split_ifs at h <;> exact hfail _ _ _ (Option.some.inj h))
        | cases h

end Scaffold.Worker
