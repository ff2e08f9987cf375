import Scaffold.Threads

namespace Scaffold.Threads

open Machine

variable {V E : Type} {onCancel : Bool} {call next : Call V E}

section Invariant

-- The cleanup between its creation and its end, for the value of the operation.
def Releasing (call : Call V E) (value : V) : Prop :=
  (call.cleanup = .created value ∧ call.calls = []) ∨
    ((call.cleanup = .called ∨ ∃ result, call.cleanup = .finished result) ∧ call.calls = [value])

-- Nothing was released.
def Untouched (call : Call V E) : Prop := call.cleanup = .none ∧ call.calls = []

-- How a call that ends by a cancellation has dealt with the result of the operation.
def Released (onCancel : Bool) (call : Call V E) (result : Except E V) : Prop :=
  match result with
  | .ok value => if onCancel then call.cleanup.isFinished = true ∧ call.calls = [value] else Untouched call
  | .error _ => Untouched call

def Inv (onCancel : Bool) (call : Call V E) : Prop :=
  match call.phase with
  | .awaiting => Untouched call ∧ call.requested = call.wait.cancelling
  | .finishing => Untouched call ∧ call.requested = true
  | .cleaning =>
      onCancel = true ∧ call.requested = true ∧ ∃ value, call.work = some (.ok value) ∧ Releasing call value
  | .ended .cancelled =>
      call.requested = true ∧ ∃ result, call.work = some result ∧ Released onCancel call result
  | .ended outcome =>
      call.requested = false ∧ Untouched call ∧ ∃ result, call.work = some result ∧ outcome = .ofWork result

end Invariant

section Moves

-- How the coroutine goes on behind its await.
inductive Resumes (onCancel : Bool) (call : Call V E) : Call V E → Prop
  | interrupted (hphase : call.phase = .awaiting ∨ call.phase = .finishing)
      (hcancelling : call.wait.cancelling = true) : Resumes onCancel call (call.finishWork onCancel)
  | done (result : Except E V) (hphase : call.phase = .awaiting) (hnot : call.wait.cancelling = false)
      (hwork : call.work = some result) : Resumes onCancel call (call.ended (.ofWork result))
  | worked (value : V) (hphase : call.phase = .finishing) (hwork : call.work = some (.ok value)) :
    Resumes onCancel call (call.finishWork onCancel)
  | failed (error : E) (hphase : call.phase = .finishing) (hwork : call.work = some (.error error)) :
    Resumes onCancel call (call.afterWork onCancel)
  | cleaned (hphase : call.phase = .cleaning) : Resumes onCancel call call.finishCleanup
  | cleanupFailed (error : E) (hphase : call.phase = .cleaning)
      (hcleanup : call.cleanup = .finished (.error error)) : Resumes onCancel call (call.ended .cancelled)

theorem resumes_of_some (h : call.resume onCancel = some next) : Resumes onCancel call next := by
  unfold Call.resume at h
  split at h
  · cases h
  split at h
  · rename_i hphase
    split at h
    · obtain rfl := Option.some.inj h
      exact .interrupted (.inl hphase) ‹_›
    · obtain ⟨result, hwork, rfl⟩ := Option.map_eq_some_iff.mp h
      exact .done result hphase (by simpa using ‹¬ call.wait.cancelling = true›) hwork
  · rename_i hphase
    split at h
    · obtain rfl := Option.some.inj h
      exact .interrupted (.inr hphase) ‹_›
    · obtain ⟨result, hwork, rfl⟩ := Option.map_eq_some_iff.mp h
      cases result with
      | ok value => exact .worked value hphase hwork
      | error error => exact .failed error hphase hwork
  · rename_i hphase
    split at h
    · obtain rfl := Option.some.inj h
      exact .cleaned hphase
    · split at h
      · obtain rfl := Option.some.inj h
        exact .cleaned hphase
      · rename_i error hcleanup
        obtain rfl := Option.some.inj h
        exact .cleanupFailed error hphase hcleanup
      · cases h
  · cases h

-- The moves of a call and of its threads.
inductive CallMove (onCancel : Bool) (call : Call V E) : Act V E → Call V E → Prop
  | finish (result : Except E V) (hwork : call.work = none) :
    CallMove onCancel call (.finish result) { call with work := some result }
  | propagate (hdone : call.awaitedDone = true) (hpending : call.wait.future = .pending) :
    CallMove onCancel call .propagate { call with wait := { call.wait with future := .resolved } }
  | cancel (hphase : ∀ outcome, call.phase ≠ .ended outcome) :
    CallMove onCancel call .cancel { call with wait := call.wait.cancel, requested := true }
  | resume (next : Call V E) (hresumes : Resumes onCancel call next) : CallMove onCancel call .resume next
  | callCleanup (value : V) (hcleanup : call.cleanup = .created value) :
    CallMove onCancel call .callCleanup { call with cleanup := .called, calls := call.calls ++ [value] }
  | finishCleanup (result : Except E Unit) (hcleanup : call.cleanup = .called) :
    CallMove onCancel call (.finishCleanup result) { call with cleanup := .finished result }

theorem callMove_of_step {act : Act V E} (h : step onCancel call act = some next) :
    CallMove onCancel call act next := by
  cases act with
  | finish result =>
      obtain ⟨hnone, rfl⟩ := guarded h
      exact .finish result (Option.isNone_iff_eq_none.mp hnone)
  | propagate =>
      obtain ⟨⟨hdone, hpending⟩, rfl⟩ := guarded h
      exact .propagate hdone hpending
  | cancel =>
      simp only [step] at h
      split at h
      · cases h
      · rename_i hphase
        obtain rfl := Option.some.inj h
        exact .cancel hphase
  | resume => exact .resume next (resumes_of_some h)
  | callCleanup =>
      simp only [step] at h
      split at h
      · rename_i value hcleanup
        obtain rfl := Option.some.inj h
        exact .callCleanup value hcleanup
      · cases h
  | finishCleanup result =>
      simp only [step] at h
      split at h
      · rename_i hcleanup
        obtain rfl := Option.some.inj h
        exact .finishCleanup result hcleanup
      · cases h

end Moves

section Steps

-- Each part of the coroutine behind its await keeps the invariant.

theorem inv_afterWork {result : Except E V} (huntouched : Untouched call)
    (hrequested : call.requested = true)
    (hwork : call.work = some result) : Inv onCancel (call.afterWork onCancel) := by
  have hcancelled : ∀ h : Released onCancel call result, Inv onCancel (call.ended .cancelled) :=
    fun h => ⟨hrequested, result, hwork, h⟩
  unfold Call.afterWork
  cases result with
  | error error =>
      rw [hwork]
      exact hcancelled huntouched
  | ok value =>
      rw [hwork]
      cases onCancel with
      | true => exact ⟨rfl, hrequested, value, rfl, .inl ⟨rfl, huntouched.2⟩⟩
      | false => exact hcancelled huntouched

theorem inv_finishWork (huntouched : Untouched call) (hrequested : call.requested = true) :
    Inv onCancel (call.finishWork onCancel) := by
  unfold Call.finishWork
  split_ifs with hdone
  · obtain ⟨result, hwork⟩ := Option.isSome_iff_exists.mp hdone
    exact inv_afterWork huntouched hrequested hwork
  · exact ⟨huntouched, hrequested⟩

theorem released_of_releasing {value : V} (h : Releasing call value)
    (hfinished : call.cleanup.isFinished = true) : Released true call (.ok value) := by
  obtain ⟨hcreated, -⟩ | ⟨-, hcalls⟩ := h
  · rw [hcreated] at hfinished
    cases hfinished
  · exact ⟨hfinished, hcalls⟩

theorem inv_finishCleanup {value : V} (hrequested : call.requested = true)
    (hwork : call.work = some (.ok value)) (hreleasing : Releasing call value) :
      Inv true call.finishCleanup := by
  unfold Call.finishCleanup
  split_ifs with hfinished
  · exact ⟨hrequested, _, hwork, released_of_releasing hreleasing hfinished⟩
  · exact ⟨rfl, hrequested, value, hwork, hreleasing⟩

theorem inv_resume (hinv : Inv onCancel call) (h : Resumes onCancel call next) : Inv onCancel next := by
  unfold Inv at hinv
  cases h with
  | interrupted hphase hcancelling =>
      rcases hphase with hphase | hphase
      · rw [hphase] at hinv
        exact inv_finishWork hinv.1 (hinv.2.trans hcancelling)
      · rw [hphase] at hinv
        exact inv_finishWork hinv.1 hinv.2
  | done result hphase hnot hwork =>
      rw [hphase] at hinv
      obtain ⟨huntouched, hrequested⟩ := hinv
      cases result with
      | ok value => exact ⟨hrequested.trans hnot, huntouched, _, hwork, rfl⟩
      | error error => exact ⟨hrequested.trans hnot, huntouched, _, hwork, rfl⟩
  | worked value hphase hwork =>
      rw [hphase] at hinv
      exact inv_finishWork hinv.1 hinv.2
  | failed error hphase hwork =>
      rw [hphase] at hinv
      exact inv_afterWork hinv.1 hinv.2 hwork
  | cleaned hphase =>
      rw [hphase] at hinv
      obtain ⟨rfl, hrequested, value, hwork, hreleasing⟩ := hinv
      exact inv_finishCleanup hrequested hwork hreleasing
  | cleanupFailed error hphase hcleanup =>
      rw [hphase] at hinv
      obtain ⟨rfl, hrequested, value, hwork, hreleasing⟩ := hinv
      have hdone : call.cleanup.isFinished = true := by
        rw [hcleanup]
        rfl
      exact ⟨hrequested, _, hwork, released_of_releasing hreleasing hdone⟩

-- Only a call in its cleanup has a cleanup that is not finished.
theorem cleaning_of_cleanup (hinv : Inv onCancel call) (hne : call.cleanup ≠ .none)
    (hfinished : call.cleanup.isFinished = false) : call.phase = .cleaning := by
  have huntouched : ¬ Untouched call := fun h => hne h.1
  unfold Inv at hinv
  cases hphase : call.phase with
  | awaiting =>
      rw [hphase] at hinv
      exact absurd hinv.1 huntouched
  | finishing =>
      rw [hphase] at hinv
      exact absurd hinv.1 huntouched
  | cleaning => rfl
  | ended outcome =>
      rw [hphase] at hinv
      cases outcome with
      | returned value => exact absurd hinv.2.1 huntouched
      | raised error => exact absurd hinv.2.1 huntouched
      | cancelled =>
          obtain ⟨-, result, -, hreleased⟩ := hinv
          cases result with
          | error error => exact absurd hreleased huntouched
          | ok value =>
              cases onCancel with
              | false => exact absurd hreleased huntouched
              | true =>
                  have hdone : call.cleanup.isFinished = true := hreleased.1
                  rw [hfinished] at hdone
                  cases hdone

theorem cancelling_cancel (wait : Wait) : wait.cancel.cancelling = true := by
  unfold Wait.cancel
  split_ifs <;> simp [Wait.cancelling]

theorem inv_step {act : Act V E} (hinv : Inv onCancel call) (h : step onCancel call act = some next) :
    Inv onCancel next := by
  cases callMove_of_step h with
  | finish result hwork =>
      unfold Inv at hinv ⊢
      cases hphase : call.phase with
      | awaiting => rwa [hphase] at hinv
      | finishing => rwa [hphase] at hinv
      | cleaning =>
          rw [hphase] at hinv
          obtain ⟨-, -, value, hvalue, -⟩ := hinv
          cases hwork.symm.trans hvalue
      | ended outcome =>
          rw [hphase] at hinv
          cases outcome with
          | cancelled =>
              obtain ⟨-, other, hother, -⟩ := hinv
              cases hwork.symm.trans hother
          | returned value =>
              obtain ⟨-, -, other, hother, -⟩ := hinv
              cases hwork.symm.trans hother
          | raised error =>
              obtain ⟨-, -, other, hother, -⟩ := hinv
              cases hwork.symm.trans hother
  | propagate hdone hpending =>
      have hcancelling : ({ call.wait with future := .resolved } : Wait).cancelling =
        call.wait.cancelling := by
        simp [Wait.cancelling, hpending]
      unfold Inv at hinv ⊢
      dsimp only
      rw [hcancelling]
      exact hinv
  | cancel hopen =>
      unfold Inv at hinv ⊢
      cases hphase : call.phase with
      | awaiting =>
          rw [hphase] at hinv
          exact ⟨hinv.1, (cancelling_cancel call.wait).symm⟩
      | finishing =>
          rw [hphase] at hinv
          exact ⟨hinv.1, rfl⟩
      | cleaning =>
          rw [hphase] at hinv
          exact ⟨hinv.1, rfl, hinv.2.2⟩
      | ended outcome => exact absurd hphase (hopen outcome)
  | resume _ hresumes => exact inv_resume hinv hresumes
  | callCleanup value hcreated =>
      have hphase := cleaning_of_cleanup hinv (by rw [hcreated]; nofun) (by rw [hcreated]; rfl)
      unfold Inv at hinv ⊢
      dsimp only
      rw [hphase] at hinv ⊢
      obtain ⟨hon, hrequested, other, hwork, hreleasing⟩ := hinv
      obtain ⟨hother, hcalls⟩ | ⟨hcalled, -⟩ := hreleasing
      · rw [hcreated] at hother
        obtain rfl := Cleanup.created.inj hother
        exact ⟨hon, hrequested, _, hwork, .inr ⟨.inl rfl, by rw [hcalls]; rfl⟩⟩
      · rw [hcreated] at hcalled
        obtain hcalled | ⟨result, hcalled⟩ := hcalled <;> cases hcalled
  | finishCleanup result hcalled =>
      have hphase := cleaning_of_cleanup hinv (by rw [hcalled]; nofun) (by rw [hcalled]; rfl)
      unfold Inv at hinv ⊢
      dsimp only
      rw [hphase] at hinv ⊢
      obtain ⟨hon, hrequested, value, hwork, hreleasing⟩ := hinv
      obtain ⟨hcreated, -⟩ | ⟨-, hcalls⟩ := hreleasing
      · cases hcalled.symm.trans hcreated
      · exact ⟨hon, hrequested, value, hwork, .inr ⟨.inr ⟨result, rfl⟩, hcalls⟩⟩

end Steps

section Runs

-- What a step of the coroutine leaves as it is.
structure Kept (call next : Call V E) : Prop where
  work : next.work = call.work
  requested : next.requested = call.requested
  left : call.work.isSome = true → next.phase ≠ .awaiting ∧ next.phase ≠ .finishing

theorem kept_ended (outcome : Outcome V E) : Kept call (call.ended outcome) :=
  ⟨rfl, rfl, fun _ => ⟨nofun, nofun⟩⟩

theorem kept_afterWork : Kept call (call.afterWork onCancel) := by
  unfold Call.afterWork
  split
  · split_ifs
    · exact ⟨rfl, rfl, fun _ => ⟨nofun, nofun⟩⟩
    · exact kept_ended _
  · exact kept_ended _

theorem kept_finishWork : Kept call (call.finishWork onCancel) := by
  unfold Call.finishWork
  split_ifs with hdone
  · exact kept_afterWork
  · exact ⟨rfl, rfl, fun h => absurd h hdone⟩

theorem kept_finishCleanup : Kept call call.finishCleanup := by
  unfold Call.finishCleanup
  split_ifs
  · exact kept_ended _
  · exact ⟨rfl, rfl, fun _ => ⟨nofun, nofun⟩⟩

theorem kept_resume (h : call.resume onCancel = some next) : Kept call next := by
  cases resumes_of_some h with
  | interrupted hphase hcancelling => exact kept_finishWork
  | done result hphase hnot hwork => exact kept_ended _
  | worked value hphase hwork => exact kept_finishWork
  | failed error hphase hwork => exact kept_afterWork
  | cleaned hphase => exact kept_finishCleanup
  | cleanupFailed error hphase hcleanup => exact kept_ended _

-- The other steps do not touch the coroutine, and only one of them is a request.
structure Outside (call next : Call V E) (act : Act V E) : Prop where
  phase : next.phase = call.phase
  work : call.work.isSome = true → next.work.isSome = true
  cleanup : call.cleanup.isFinished = true → next.cleanup.isFinished = true
  requested : next.requested = true ↔ call.requested = true ∨ act = .cancel

theorem step_outside {act : Act V E} (hact : act ≠ .resume) (h : step onCancel call act = some next) :
    Outside call next act := by
  cases callMove_of_step h with
  | finish result hwork => exact ⟨rfl, fun _ => rfl, id, by simp⟩
  | propagate hdone hpending => exact ⟨rfl, id, id, by simp⟩
  | cancel hphase => exact ⟨rfl, id, id, by simp⟩
  | resume _ hresumes => exact absurd rfl hact
  | callCleanup value hcreated =>
      refine ⟨rfl, id, fun hfinished => ?_, by simp⟩
      rw [hcreated] at hfinished
      cases hfinished
  | finishCleanup result hcalled => exact ⟨rfl, id, fun _ => rfl, by simp⟩

theorem requested_step {act : Act V E} (h : step onCancel call act = some next) :
    next.requested = true ↔ call.requested = true ∨ act = .cancel := by
  by_cases hact : act = .resume
  · subst hact
    rw [(kept_resume h).requested]
    simp
  · exact (step_outside hact h).requested

theorem requested_run {acts : List (Act V E)} (h : run (step onCancel) call acts = some next) :
    next.requested = true ↔ call.requested = true ∨ .cancel ∈ acts := by
  induction acts generalizing call with
  | nil =>
      obtain rfl := Option.some.inj h
      simp
  | cons act acts ih =>
      obtain ⟨middle, hstep, hrun⟩ := (run_cons act acts).mp h
      rw [ih hrun, requested_step hstep, List.mem_cons, or_assoc, eq_comm (a := act)]

theorem work_step {act : Act V E} (h : step onCancel call act = some next)
    (hdone : call.work.isSome = true) :
    next.work.isSome = true := by
  by_cases hact : act = .resume
  · subst hact
    rw [(kept_resume h).work]
    exact hdone
  · exact (step_outside hact h).work hdone

-- When the operation is done, a call that has gone on is past the loop, and it stays there.
theorem left_run {acts : List (Act V E)} (h : run (step onCancel) call acts = some next)
    (hdone : call.work.isSome = true)
    (hleft : .resume ∈ acts ∨ (call.phase ≠ .awaiting ∧ call.phase ≠ .finishing)) :
    next.phase ≠ .awaiting ∧ next.phase ≠ .finishing := by
  induction acts generalizing call with
  | nil =>
      obtain rfl := Option.some.inj h
      exact hleft.resolve_left List.not_mem_nil
  | cons act acts ih =>
      obtain ⟨middle, hstep, hrun⟩ := (run_cons act acts).mp h
      refine ih hrun (work_step hstep hdone) ?_
      by_cases hact : act = .resume
      · subst hact
        exact .inr ((kept_resume hstep).left hdone)
      · rw [(step_outside hact hstep).phase]
        refine hleft.imp_left fun hmem => ?_
        exact (List.mem_cons.mp hmem).resolve_left fun heq => hact heq.symm

-- The coroutine ends at its next step behind a cleanup that is finished.
theorem ended_resume (hphase : call.phase = .cleaning) (hfinished : call.cleanup.isFinished = true)
    (h : call.resume onCancel = some next) : ∃ outcome, next.phase = .ended outcome := by
  have hended : call.finishCleanup = call.ended .cancelled := if_pos hfinished
  cases resumes_of_some h with
  | interrupted hother hcancelling =>
      rcases hother with hother | hother
      · cases hphase.symm.trans hother
      · cases hphase.symm.trans hother
  | done result hother hnot hwork => cases hphase.symm.trans hother
  | worked value hother hwork => cases hphase.symm.trans hother
  | failed error hother hwork => cases hphase.symm.trans hother
  | cleaned hcleaning => exact ⟨.cancelled, hended ▸ rfl⟩
  | cleanupFailed error hcleaning hcleanup => exact ⟨.cancelled, rfl⟩

theorem ended_run {acts : List (Act V E)} (h : run (step onCancel) call acts = some next)
    (hphase : (call.phase = .cleaning ∧ call.cleanup.isFinished = true ∧ .resume ∈ acts) ∨
      ∃ outcome, call.phase = .ended outcome) : ∃ outcome, next.phase = .ended outcome := by
  induction acts generalizing call with
  | nil =>
      obtain rfl := Option.some.inj h
      exact hphase.resolve_left fun hcleaning => List.not_mem_nil hcleaning.2.2
  | cons act acts ih =>
      obtain ⟨middle, hstep, hrun⟩ := (run_cons act acts).mp h
      refine ih hrun ?_
      by_cases hact : act = .resume
      · subst hact
        obtain ⟨hcleaning, hfinished, -⟩ | ⟨outcome, hended⟩ := hphase
        · exact .inr (ended_resume hcleaning hfinished hstep)
        · have hnone : call.resume onCancel = none := by
            unfold Call.resume
            rw [hended]
            split_ifs <;> rfl
          rw [show step onCancel call .resume = call.resume onCancel from rfl, hnone] at hstep
          cases hstep
      · have houtside := step_outside hact hstep
        rw [houtside.phase]
        refine hphase.imp_left fun ⟨hcleaning, hfinished, hmem⟩ =>
          ⟨hcleaning, houtside.cleanup hfinished, ?_⟩
        exact (List.mem_cons.mp hmem).resolve_left fun heq => hact heq.symm

theorem resume_isSome (hfuture : call.wait.future ≠ .pending) (hdone : call.awaitedDone = true) :
    (call.resume onCancel).isSome = true := by
  unfold Call.resume
  unfold Call.awaitedDone at hdone
  rw [if_neg hfuture]
  cases hphase : call.phase with
  | awaiting =>
      rw [hphase] at hdone
      dsimp only at hdone ⊢
      split_ifs
      · rfl
      · rwa [Option.isSome_map]
  | finishing =>
      rw [hphase] at hdone
      dsimp only at hdone ⊢
      split_ifs
      · rfl
      · rwa [Option.isSome_map]
  | cleaning =>
      rw [hphase] at hdone
      dsimp only at hdone ⊢
      split_ifs
      · rfl
      · cases hcleanup : call.cleanup with
        | finished result => cases result <;> rfl
        | none =>
            rw [hcleanup] at hdone
            cases hdone
        | created value =>
            rw [hcleanup] at hdone
            cases hdone
        | called =>
            rw [hcleanup] at hdone
            cases hdone
  | ended outcome =>
      rw [hphase] at hdone
      cases hdone

-- A call whose task is done goes on, at once or when its future is resolved.
theorem goes_on (hdone : call.awaitedDone = true) :
    ∃ acts next, (acts = [.resume] ∨ acts = [.propagate, .resume]) ∧
      run (step onCancel) call acts = some next := by
  by_cases hpending : call.wait.future = .pending
  · have hresolved : step onCancel call .propagate =
        some { call with wait := { call.wait with future := .resolved } } := if_pos ⟨hdone, hpending⟩
    have hsame :
        ({ call with wait := { call.wait with future := .resolved } } : Call V E).awaitedDone =
          true := hdone
    have hfuture : Future.resolved ≠ .pending := fun heq => by cases heq
    have hsome :
        ({ call with wait := { call.wait with future := .resolved } }.resume onCancel).isSome = true :=
      resume_isSome hfuture hsame
    obtain ⟨next, hnext⟩ := Option.isSome_iff_exists.mp hsome
    exact ⟨_, next, .inr rfl, (run_cons _ _).mpr ⟨_, hresolved, (run_cons _ _).mpr ⟨next, hnext, rfl⟩⟩⟩
  · have hsome : (call.resume onCancel).isSome = true := resume_isSome hpending hdone
    obtain ⟨next, hnext⟩ := Option.isSome_iff_exists.mp hsome
    exact ⟨_, next, .inl rfl, (run_cons _ _).mpr ⟨next, hnext, rfl⟩⟩

theorem inv_start : Inv onCancel ({} : Call V E) := ⟨⟨rfl, rfl⟩, rfl⟩

end Runs

-- A call of `PwdlibPasswordHasher` has nothing to release.
theorem hasher_untouched {acts : List (Act V E)} (h : run hasherStep {} acts = some call) :
    Untouched call := by
  have hinv : Inv false call :=
    Reaches.invariant ⟨acts, h⟩ (fun _ _ _ => inv_step) inv_start
  unfold Inv at hinv
  cases hphase : call.phase with
  | awaiting =>
      rw [hphase] at hinv
      exact hinv.1
  | finishing =>
      rw [hphase] at hinv
      exact hinv.1
  | cleaning =>
      rw [hphase] at hinv
      cases hinv.1
  | ended outcome =>
      rw [hphase] at hinv
      cases outcome with
      | returned value => exact hinv.2.1
      | raised error => exact hinv.2.1
      | cancelled =>
          obtain ⟨-, result, -, hreleased⟩ := hinv
          cases result with
          | ok value => exact hreleased
          | error error => exact hreleased

theorem run_sync_cancellation {acts : List (Act V E)} (h : run (step onCancel) {} acts = some call) :
    -- the call ends with the operation, and by a cancellation exactly when one was requested
    (∀ outcome, call.phase = .ended outcome → ∃ result, call.work = some result ∧
      (.cancel ∉ acts → outcome = .ofWork result) ∧
      (.cancel ∈ acts → outcome = .cancelled ∧ Released onCancel call result)) ∧
    (.cancel ∉ acts → call.calls = []) ∧
    -- behind a step of the coroutine no loop waits for a thread that was done before it
    (∀ more later, run (step onCancel) call more = some later → call.work.isSome = true → .resume ∈ more →
      later.phase ≠ .awaiting ∧ later.phase ≠ .finishing) ∧
    (∀ more later, run (step onCancel) call more = some later → call.phase = .cleaning →
      call.cleanup.isFinished = true → .resume ∈ more → ∃ outcome, later.phase = .ended outcome) ∧
    (call.awaitedDone = true →
      ∃ more later, (more = [.resume] ∨ more = [.propagate, .resume]) ∧
        run (step onCancel) call more = some later) := by
  have hinv : Inv onCancel call := Reaches.invariant ⟨acts, h⟩ (fun _ _ _ => inv_step) inv_start
  have hrequested : call.requested = true ↔ .cancel ∈ acts := by
    rw [requested_run h]
    simp
  refine ⟨?_, ?_, fun more later hrun hdone hmem => left_run hrun hdone (.inl hmem),
    fun more later hrun hphase hfinished hmem => ended_run hrun (.inl ⟨hphase, hfinished, hmem⟩), goes_on⟩
  · intro outcome hphase
    unfold Inv at hinv
    rw [hphase] at hinv
    cases outcome with
    | cancelled =>
        obtain ⟨hcancel, result, hwork, hreleased⟩ := hinv
        exact ⟨result, hwork, fun hnone => absurd (hrequested.mp hcancel) hnone, fun _ => ⟨rfl, hreleased⟩⟩
    | returned value =>
        obtain ⟨hnone, -, result, hwork, houtcome⟩ := hinv
        refine ⟨result, hwork, fun _ => houtcome, fun hcancel => ?_⟩
        rw [hrequested.mpr hcancel] at hnone
        cases hnone
    | raised error =>
        obtain ⟨hnone, -, result, hwork, houtcome⟩ := hinv
        refine ⟨result, hwork, fun _ => houtcome, fun hcancel => ?_⟩
        rw [hrequested.mpr hcancel] at hnone
        cases hnone
  · intro hnone
    have hnot : ¬ call.requested = true := fun hcancel => hnone (hrequested.mp hcancel)
    unfold Inv at hinv
    cases hphase : call.phase with
    | awaiting =>
        rw [hphase] at hinv
        exact hinv.1.2
    | finishing =>
        rw [hphase] at hinv
        exact absurd hinv.2 hnot
    | cleaning =>
        rw [hphase] at hinv
        exact absurd hinv.2.1 hnot
    | ended outcome =>
        rw [hphase] at hinv
        cases outcome with
        | cancelled => exact absurd hinv.1 hnot
        | returned value => exact hinv.2.1.2
        | raised error => exact hinv.2.1.2

-- A second request arrives while the cleanup runs, and a third one behind its end.
theorem run_sync_cancellation_cleanup :
    ∃ call : Call Nat Unit,
      run (step true) {} [.cancel, .resume, .cancel, .finish (.ok 7), .resume, .callCleanup, .cancel,
        .finishCleanup (.ok ()), .cancel, .resume] = some call ∧
      ∃ result, call.work = some result ∧ Released true call result := by
  have hended : ∃ call : Call Nat Unit,
      run (step true) {} [.cancel, .resume, .cancel, .finish (.ok 7), .resume, .callCleanup, .cancel,
        .finishCleanup (.ok ()), .cancel, .resume] = some call ∧ call.phase = .ended .cancelled :=
    ⟨_, rfl, rfl⟩
  obtain ⟨call, hrun, hphase⟩ := hended
  obtain ⟨result, hwork, -, hcancelled⟩ := (run_sync_cancellation hrun).1 _ hphase
  exact ⟨call, hrun, result, hwork, (hcancelled (by simp)).2⟩

end Scaffold.Threads
