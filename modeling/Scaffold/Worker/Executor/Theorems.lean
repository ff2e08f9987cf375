import Scaffold.Worker.Executor

namespace Scaffold.Worker

open Machine
open Queue (Bytes Uuid MessageEnvelope FailedJobRecord)

variable {D F I T : Type} {config : ExecutorConfig D} {home : T → I}

section Store

variable {s : FailureStore D F I T}

-- Rows are stored under their own id.
def Keyed (s : FailureStore D F I T) : Prop :=
  ∀ id record, s.records id = some record → record.failureId = id

theorem insertRecord_records (record : FailedJobRecord D F) (id : Uuid) :
    (insertRecord s record).records id =
      if id = record.failureId ∧ s.records id = none then some record else s.records id := by
  unfold insertRecord
  by_cases hsome : (s.records record.failureId).isSome
  · rw [if_pos hsome, if_neg]
    rintro ⟨rfl, hnone⟩
    simp [hnone] at hsome
  · rw [if_neg hsome]
    have hnone : s.records record.failureId = none := by simpa using hsome
    by_cases hid : id = record.failureId
    · subst hid
      simp [hnone]
    · simp [hid]

theorem insertRecord_keeps (record : FailedJobRecord D F) {id : Uuid} {other : FailedJobRecord D F}
    (h : s.records id = some other) : (insertRecord s record).records id = some other := by
  rw [insertRecord_records, if_neg]
  · exact h
  · rintro ⟨-, hnone⟩
    simp [hnone] at h

theorem Keyed.insert (h : Keyed s) (record : FailedJobRecord D F) : Keyed (insertRecord s record) := by
  intro id other hother
  rw [insertRecord_records] at hother
  split_ifs at hother with hnew
  · obtain rfl := Option.some.inj hother
    exact hnew.1.symm
  · exact h id other hother

end Store

-- What holds of an execution at each of its awaits.
def ExecOk (config : ExecutorConfig D) (l : Execution D F) : Prop :=
  match l.phase with
  | .found _ row => l.acknowledges = 0 ∧ l.seen = row
  | .finishing _ result =>
      l.acknowledges = 0 ∧ (result.failureReason = none → l.last = some (.returned false))
  | .saving w record => l.acknowledges = 0 ∧ record.failureId = failureId config w
  | .inserting w record => l.acknowledges = 0 ∧ record.failureId = failureId config w
  | .inserted w record =>
      l.acknowledges = 0 ∧ record.failureId = failureId config w ∧ l.seen = some record
  | .refinding w record => l.acknowledges = 0 ∧ record.failureId = failureId config w
  | .refound _ _ row => l.acknowledges = 0 ∧ l.seen = row
  | .acknowledging _ => l.acknowledges = 1 ∧ (l.last = some (.returned false) ∨ l.seen.isSome)
  | .done _ (.ok _) => l.acknowledges = 1 ∧ (l.last = some (.returned false) ∨ l.seen.isSome)
  | .done _ (.error .acknowledge) =>
      l.acknowledges = 1 ∧ (l.last = some (.returned false) ∨ l.seen.isSome)
  | _ => l.acknowledges = 0

-- An attempt that ends the loop without a failure has returned in time.
theorem afterAttempt_success {policy : JobPolicy} {attempt : Nat} {outcome : AttemptOutcome F}
    {result : ExecutionResult F} (h : afterAttempt policy attempt outcome = .finished result)
    (hok : result.failureReason = none) : outcome = .returned false := by
  cases outcome with
  | returned expired =>
      cases expired with
      | false => rfl
      | true =>
          obtain rfl := AttemptNext.finished.inj h
          cases hok
  | retryableJobError error =>
      simp only [afterAttempt, retryOr] at h
      split_ifs at h
      obtain rfl := AttemptNext.finished.inj h
      cases hok
  | timeoutError expired error =>
      simp only [afterAttempt, retryOr] at h
      split_ifs at h <;> obtain rfl := AttemptNext.finished.inj h <;> cases hok
  | invalidMessageError error =>
      obtain rfl := AttemptNext.finished.inj h
      cases hok
  | jobDefinitionError => cases h
  | exception error =>
      obtain rfl := AttemptNext.finished.inj h
      cases hok
  | baseException => cases h

-- Only a broken definition and a cancellation leave the loop as exceptions.
theorem afterAttempt_raised {policy : JobPolicy} {attempt : Nat} {outcome : AttemptOutcome F}
    {error : ExecError} (h : afterAttempt policy attempt outcome = .raised error) :
    outcome = .jobDefinitionError ∧ error = .jobDefinition ∨ outcome = .baseException ∧
      error = .raised := by
  cases outcome with
  | returned expired => cases expired <;> cases h
  | retryableJobError error =>
      simp only [afterAttempt, retryOr] at h
      split_ifs at h
  | timeoutError expired error =>
      simp only [afterAttempt, retryOr] at h
      split_ifs at h
  | invalidMessageError error => cases h
  | jobDefinitionError => exact .inl ⟨rfl, (AttemptNext.raised.inj h).symm⟩
  | exception error => cases h
  | baseException => exact .inr ⟨rfl, (AttemptNext.raised.inj h).symm⟩

section Steps

variable [DecidableEq I] [DecidableEq T] {t : T} {s s' : FailureStore D F I T} {l l' : Execution D F}

-- The moves of an execution, each with the act that makes it and the phase that it leaves.
inductive ExecMove (config : ExecutorConfig D) (home : T → I) (t : T) (s : FailureStore D F I T)
    (l : Execution D F) : ExecAct D F → ExecPhase D F → FailureStore D F I T → Execution D F → Prop
  | execute (delivery : Delivery) :
    ExecMove config home t s l (.execute delivery) .idle (begin config s t l delivery).1
      (begin config s t l delivery).2
  | find (w : Received D) :
    ExecMove config home t s l .get (.finding w) s
      { l with phase := .found w (s.records (failureId config w)), seen := s.records (failureId config w) }
  | refind (w : Received D) (record : FailedJobRecord D F) :
    ExecMove config home t s l .get (.refinding w record) s
      { l with
        phase := .refound w record (s.records record.failureId), seen := s.records record.failureId }
  | known (w : Received D) (row : FailedJobRecord D F) :
    ExecMove config home t s l .returns (.found w (some row)) (callAcknowledge s l w).1
      (callAcknowledge s l w).2
  | unknown (w : Received D) :
    ExecMove config home t s l .returns (.found w none) (proceed s l w).1 (proceed s l w).2
  | inserted (w : Received D) (record : FailedJobRecord D F) :
    ExecMove config home t s l .returns (.inserted w record) (callAcknowledge (leaveLock s t) l w).1
      (callAcknowledge (leaveLock s t) l w).2
  | present (w : Received D) (record row : FailedJobRecord D F) :
    ExecMove config home t s l .returns (.refound w record (some row))
      (callAcknowledge (leaveLock s t) l w).1 (callAcknowledge (leaveLock s t) l w).2
  | absent (w : Received D) (record : FailedJobRecord D F) :
    ExecMove config home t s l .returns (.refound w record none) (fail s t l w .integrity).1
      (fail s t l w .integrity).2
  | resolve (w : Received D) (answer : Resolution) :
    ExecMove config home t s l (.resolve answer) (.resolving w) (resolve s t l w answer).1
      (resolve s t l w answer).2
  | attemptEnds (w : Received D) (policy : JobPolicy) (attempt : Nat) (outcome : AttemptOutcome F) :
    ExecMove config home t s l (.attemptEnds outcome) (.attempting w policy attempt)
      (attemptEnds s t l w policy attempt outcome).1 (attemptEnds s t l w policy attempt outcome).2
  | slept (w : Received D) (policy : JobPolicy) (attempt : Nat) :
    ExecMove config home t s l .slept (.sleeping w policy attempt) s
      { l with phase := .attempting w policy (attempt + 1) }
  | finish (w : Received D) (result : ExecutionResult F) (now : D) :
    ExecMove config home t s l (.finish now) (.finishing w result) (finish config s l w result now).1
      (finish config s l w result now).2
  | acquire (w : Received D) (record : FailedJobRecord D F) (hfree : s.writeLock (home t) = none) :
    ExecMove config home t s l .acquire (.saving w record)
      { s with writeLock := Function.update s.writeLock (home t) (some t) }
      { l with phase := .inserting w record }
  | commit (w : Received D) (record : FailedJobRecord D F) (hnone : s.records record.failureId = none) :
    ExecMove config home t s l .commit (.inserting w record) (insertRecord s record)
      { l with phase := .inserted w record, seen := some record }
  | integrityError (w : Received D) (record : FailedJobRecord D F) :
    ExecMove config home t s l .integrityError (.inserting w record) s
      { l with phase := .refinding w record }
  | acknowledged (w : Received D) :
    ExecMove config home t s l .acknowledged (.acknowledging w) s { l with phase := .done w (.ok ()) }
  | raises {phase : ExecPhase D F} {s' : FailureStore D F I T} {l' : Execution D F} (applied : Bool)
      (h : raises s t l applied = some (s', l')) :
    ExecMove config home t s l (.raises applied) phase s' l'

theorem execMove_of_step {act : ExecAct D F} (h : execStep config home t s l act = some (s', l')) :
    ∃ phase, l.phase = phase ∧ ExecMove config home t s l act phase s' l' := by
  have hmoved : ∀ {phase : ExecPhase D F} {next : ExecNext D F I T}, l.phase = phase →
      some next = some (s', l') → ExecMove config home t s l act phase next.1 next.2 →
      ∃ phase, l.phase = phase ∧ ExecMove config home t s l act phase s' l' := by
    intro phase next hphase hnext hmove
    obtain rfl := Option.some.inj hnext
    exact ⟨phase, hphase, hmove⟩
  cases act with
  | execute delivery =>
      simp only [execStep] at h
      split at h
      · exact hmoved ‹_› h (.execute delivery)
      · cases h
  | get =>
      simp only [execStep] at h
      split at h
      · exact hmoved ‹_› h (.find _)
      · exact hmoved ‹_› h (.refind _ _)
      · cases h
  | returns =>
      simp only [execStep] at h
      split at h
      · exact hmoved ‹_› h (.known _ _)
      · exact hmoved ‹_› h (.unknown _)
      · exact hmoved ‹_› h (.inserted _ _)
      · exact hmoved ‹_› h (.present _ _ _)
      · exact hmoved ‹_› h (.absent _ _)
      · cases h
  | resolve answer =>
      simp only [execStep] at h
      split at h
      · exact hmoved ‹_› h (.resolve _ answer)
      · cases h
  | attemptEnds outcome =>
      simp only [execStep] at h
      split at h
      · exact hmoved ‹_› h (.attemptEnds _ _ _ outcome)
      · cases h
  | slept =>
      simp only [execStep] at h
      split at h
      · exact hmoved ‹_› h (.slept _ _ _)
      · cases h
  | finish now =>
      simp only [execStep] at h
      split at h
      · exact hmoved ‹_› h (.finish _ _ now)
      · cases h
  | acquire =>
      simp only [execStep] at h
      split at h
      · split_ifs at h with hfree
        exact hmoved ‹_› h (.acquire _ _ hfree)
      · cases h
  | commit =>
      simp only [execStep] at h
      split at h
      · split_ifs at h with hnone
        exact hmoved ‹_› h (.commit _ _ (Option.isNone_iff_eq_none.mp hnone))
      · cases h
  | integrityError =>
      simp only [execStep] at h
      split at h
      · exact hmoved ‹_› h (.integrityError _ _)
      · cases h
  | acknowledged =>
      simp only [execStep] at h
      split at h
      · exact hmoved ‹_› h (.acknowledged _)
      · cases h
  | raises applied => exact ⟨l.phase, rfl, .raises applied h⟩

-- What a step of an execution may do: it keeps its delivery, it inserts at most one row, and what
-- it has seen of the table is what is there, before it calls `acknowledge`.
structure ExecStepped (config : ExecutorConfig D) (s s' : FailureStore D F I T) (l l' : Execution D F) :
    Prop where
  work : ∀ w, l.phase.work = some w → l'.phase.work = some w
  ok : ExecOk config l'
  seen : l'.seen = l.seen ∨ ∃ w, l'.phase.work = some w ∧ l'.acknowledges = 0 ∧
    l'.seen = s'.records (failureId config w)
  records : s'.records = s.records ∨ ∃ record, s'.records = (insertRecord s record).records

omit [DecidableEq I] in
theorem stepped_fail {w : Received D} {error : ExecError} (l₀ : Execution D F)
    (hw : ∀ w', l.phase.work = some w' → w' = w) (herror : error ≠ .acknowledge)
    (hacks : l₀.acknowledges = 0) (hseen : l₀.seen = l.seen) (h : fail s t l₀ w error = (s', l')) :
    ExecStepped config s s' l l' := by
  obtain ⟨rfl, rfl⟩ := Prod.mk.inj h
  refine ⟨?_, ?_, .inl hseen, .inl rfl⟩
  · intro w' hw'
    rw [hw w' hw']
    rfl
  · cases error <;> first | exact absurd rfl herror | exact hacks

omit [DecidableEq I] [DecidableEq T] in
theorem stepped_acknowledge {w : Received D} (s₀ : FailureStore D F I T) (hw : l.phase.work = some w)
    (hacks : l.acknowledges = 0) (hsettled : l.last = some (.returned false) ∨ l.seen.isSome)
    (hrows : s₀.records = s.records) (h : callAcknowledge s₀ l w = (s', l')) :
    ExecStepped config s s' l l' := by
  obtain ⟨rfl, rfl⟩ := Prod.mk.inj h
  refine ⟨?_, ⟨by simp [hacks], hsettled⟩, .inl rfl, .inl hrows⟩
  intro w' hw'
  rw [hw] at hw'
  exact hw'

-- A move of the phase alone, to a phase in which nothing has been settled.
omit [DecidableEq I] [DecidableEq T] in
theorem stepped_move {phase : ExecPhase D F} (h : (s, { l with phase := phase }) = (s', l'))
    (hw : ∀ w, l.phase.work = some w → phase.work = some w)
    (ho : ExecOk config { l with phase := phase }) : ExecStepped config s s' l l' := by
  obtain ⟨rfl, rfl⟩ := Prod.mk.inj h
  exact ⟨hw, ho, .inl rfl, .inl rfl⟩

omit [DecidableEq I] [DecidableEq T] in
theorem proceed_stepped {w : Received D} (hw : ∀ w', l.phase.work = some w' → w' = w)
    (hacks : l.acknowledges = 0) (h : proceed s l w = (s', l')) : ExecStepped config s s' l l' := by
  have hsame : ∀ w', l.phase.work = some w' → some w = some w' := fun w' hw' => by rw [hw w' hw']
  unfold proceed at h
  split at h
  · exact stepped_move h hsame ⟨hacks, by simp⟩
  · exact stepped_move h hsame hacks

omit [DecidableEq I] [DecidableEq T] in
theorem lookUp_stepped {w : Received D} (hw : ∀ w', l.phase.work = some w' → w' = w)
    (hacks : l.acknowledges = 0) (h : lookUp s l w = (s', l')) : ExecStepped config s s' l l' := by
  unfold lookUp at h
  split_ifs at h
  · exact stepped_move h (fun w' hw' => by rw [hw w' hw']; rfl) hacks
  · exact proceed_stepped hw hacks h

omit [DecidableEq I] in
theorem begin_stepped {delivery : Delivery} (hidle : l.phase = .idle) (ho : ExecOk config l)
    (h : begin config s t l delivery = (s', l')) : ExecStepped config s s' l l' := by
  have hacks : l.acknowledges = 0 := by simpa [ExecOk, hidle] using ho
  have hwork : ∀ w w', l.phase.work = some w' → w' = w := by simp [hidle, ExecPhase.work]
  unfold begin at h
  split at h
  · exact stepped_fail l (hwork _) (by simp) hacks rfl h
  · exact lookUp_stepped (hwork _) hacks h
  · exact lookUp_stepped (hwork _) hacks h

omit [DecidableEq I] in
theorem resolve_stepped {w : Received D} {answer : Resolution} (hphase : l.phase = .resolving w)
    (ho : ExecOk config l)
    (h : resolve s t l w answer = (s', l')) : ExecStepped config s s' l l' := by
  have hacks : l.acknowledges = 0 := by simpa [ExecOk, hphase] using ho
  have hwork : ∀ w', l.phase.work = some w' → w' = w := by simp [hphase, ExecPhase.work]
  have hsame : ∀ w', l.phase.work = some w' → some w = some w' := fun w' hw' => by rw [hwork w' hw']
  cases answer with
  | binding policy =>
      obtain ⟨rfl, rfl⟩ := Prod.mk.inj h
      exact ⟨hsame, hacks, .inl rfl, .inl rfl⟩
  | unknownJob =>
      obtain ⟨rfl, rfl⟩ := Prod.mk.inj h
      exact ⟨hsame, ⟨hacks, by simp⟩, .inl rfl, .inl rfl⟩
  | unsupportedJobVersion =>
      obtain ⟨rfl, rfl⟩ := Prod.mk.inj h
      exact ⟨hsame, ⟨hacks, by simp⟩, .inl rfl, .inl rfl⟩
  | jobDefinitionError => exact stepped_fail { l with resolved := true } hwork (by simp) hacks rfl h
  | raised => exact stepped_fail { l with resolved := true } hwork (by simp) hacks rfl h

omit [DecidableEq I] in
theorem attemptEnds_stepped {w : Received D} {policy : JobPolicy} {attempt : Nat}
    {outcome : AttemptOutcome F} (hphase : l.phase = .attempting w policy attempt) (ho : ExecOk config l)
    (h : attemptEnds s t l w policy attempt outcome = (s', l')) : ExecStepped config s s' l l' := by
  have hacks : l.acknowledges = 0 := by simpa [ExecOk, hphase] using ho
  have hwork : ∀ w', l.phase.work = some w' → w' = w := by simp [hphase, ExecPhase.work]
  have hsame : ∀ w', l.phase.work = some w' → some w = some w' := fun w' hw' => by rw [hwork w' hw']
  unfold attemptEnds at h
  split at h
  · rename_i result hresult
    obtain ⟨rfl, rfl⟩ := Prod.mk.inj h
    refine ⟨hsame, ⟨hacks, fun hok => ?_⟩, .inl rfl, .inl rfl⟩
    exact congrArg some (afterAttempt_success hresult hok)
  · obtain ⟨rfl, rfl⟩ := Prod.mk.inj h
    exact ⟨hsame, hacks, .inl rfl, .inl rfl⟩
  · rename_i error herror
    have hne : error ≠ .acknowledge := by
      rcases afterAttempt_raised herror with ⟨-, rfl⟩ | ⟨-, rfl⟩ <;> simp
    exact stepped_fail { l with last := some outcome } hwork hne hacks rfl h

omit [DecidableEq I] [DecidableEq T] in
theorem finish_stepped {w : Received D} {result : ExecutionResult F} {now : D}
    (hphase : l.phase = .finishing w result) (ho : ExecOk config l)
    (h : finish config s l w result now = (s', l')) : ExecStepped config s s' l l' := by
  obtain ⟨hacks, hlast⟩ : l.acknowledges = 0 ∧
    (result.failureReason = none → l.last = some (.returned false)) := by
    simpa [ExecOk, hphase] using ho
  unfold finish at h
  split at h
  · rename_i hok
    exact stepped_acknowledge s (by rw [hphase]; rfl) hacks (.inl (hlast hok)) rfl h
  · exact stepped_move h (by simp [hphase, ExecPhase.work]) ⟨hacks, rfl⟩

omit [DecidableEq I] in
theorem raises_stepped {applied : Bool} (ho : ExecOk config l)
    (h : raises s t l applied = some (s', l')) : ExecStepped config s s' l l' := by
  have hfail : ∀ w, l.phase.work = some w → l.acknowledges = 0 →
      fail s t l w .raised = (s', l') → ExecStepped config s s' l l' := by
    intro w hw hacks hf
    exact stepped_fail l (by simp [hw]) (by simp) hacks rfl hf
  unfold raises at h
  split at h
  · cases h
  · cases h
  · cases h
  · cases h
  · cases h
  · rename_i w hphase
    obtain ⟨rfl, rfl⟩ := Prod.mk.inj (Option.some.inj h)
    have hsettled : l.acknowledges = 1 ∧ (l.last = some (.returned false) ∨ l.seen.isSome) := by
      simpa [ExecOk, hphase] using ho
    exact ⟨by simp [hphase, ExecPhase.work], hsettled, .inl rfl, .inl rfl⟩
  · rename_i w record hphase
    have hacks : l.acknowledges = 0 ∧ record.failureId = failureId config w := by
      simpa [ExecOk, hphase] using ho
    split_ifs at h
    · obtain ⟨rfl, rfl⟩ := Prod.mk.inj (Option.some.inj h)
      exact ⟨by simp [hphase, ExecPhase.work], hacks.1, .inl rfl, .inr ⟨record, rfl⟩⟩
    · exact hfail w (by rw [hphase]; rfl) hacks.1 (Option.some.inj h)
  all_goals
    rename_i hphase
    refine hfail _ (by rw [hphase]; rfl) ?_ (Option.some.inj h)
    simp only [ExecOk, hphase] at ho
    first | exact ho | exact ho.1

theorem execStep_stepped {act : ExecAct D F} (ho : ExecOk config l)
    (h : execStep config home t s l act = some (s', l')) : ExecStepped config s s' l l' := by
  obtain ⟨phase, hphase, hmove⟩ := execMove_of_step h
  cases hmove with
  | execute delivery => exact begin_stepped hphase ho rfl
  | find w =>
      have hacks : l.acknowledges = 0 := by simpa [ExecOk, hphase] using ho
      exact ⟨by simp [hphase, ExecPhase.work], ⟨hacks, rfl⟩, .inr ⟨w, rfl, hacks, rfl⟩, .inl rfl⟩
  | refind w record =>
      obtain ⟨hacks, hid⟩ : l.acknowledges = 0 ∧ record.failureId = failureId config w := by
        simpa [ExecOk, hphase] using ho
      refine ⟨by simp [hphase, ExecPhase.work], ⟨hacks, rfl⟩, .inr ⟨w, rfl, hacks, ?_⟩, .inl rfl⟩
      rw [hid]
  | known w row =>
      obtain ⟨hacks, hseen⟩ : l.acknowledges = 0 ∧ l.seen = some row := by
        simpa [ExecOk, hphase] using ho
      exact stepped_acknowledge s (by rw [hphase]; rfl) hacks (.inr (by rw [hseen]; rfl)) rfl rfl
  | unknown w =>
      have hacks : l.acknowledges = 0 ∧ l.seen = none := by simpa [ExecOk, hphase] using ho
      exact proceed_stepped (by simp [hphase, ExecPhase.work]) hacks.1 rfl
  | inserted w record =>
      obtain ⟨hacks, -, hseen⟩ :
          l.acknowledges = 0 ∧ record.failureId = failureId config w ∧ l.seen = some record := by
        simpa [ExecOk, hphase] using ho
      have hsettled : l.last = some (.returned false) ∨ l.seen.isSome := .inr (by rw [hseen]; rfl)
      exact stepped_acknowledge (leaveLock s t) (by rw [hphase]; rfl) hacks hsettled rfl rfl
  | present w record row =>
      obtain ⟨hacks, hseen⟩ : l.acknowledges = 0 ∧ l.seen = some row := by
        simpa [ExecOk, hphase] using ho
      have hsettled : l.last = some (.returned false) ∨ l.seen.isSome := .inr (by rw [hseen]; rfl)
      exact stepped_acknowledge (leaveLock s t) (by rw [hphase]; rfl) hacks hsettled rfl rfl
  | absent w record =>
      have hacks : l.acknowledges = 0 ∧ l.seen = none := by simpa [ExecOk, hphase] using ho
      exact stepped_fail l (by simp [hphase, ExecPhase.work]) (by simp) hacks.1 rfl rfl
  | resolve w answer => exact resolve_stepped hphase ho rfl
  | attemptEnds w policy attempt outcome => exact attemptEnds_stepped hphase ho rfl
  | slept w policy attempt =>
      have hacks : l.acknowledges = 0 := by simpa [ExecOk, hphase] using ho
      exact stepped_move rfl (by simp [hphase, ExecPhase.work]) hacks
  | finish w result now => exact finish_stepped hphase ho rfl
  | acquire w record hfree =>
      exact ⟨by simp [hphase, ExecPhase.work], by simpa [ExecOk, hphase] using ho, .inl rfl, .inl rfl⟩
  | commit w record hnone =>
      obtain ⟨hacks, hid⟩ : l.acknowledges = 0 ∧ record.failureId = failureId config w := by
        simpa [ExecOk, hphase] using ho
      have hrow : (insertRecord s record).records record.failureId = some record := by
        rw [insertRecord_records, if_pos ⟨rfl, hnone⟩]
      refine ⟨by simp [hphase, ExecPhase.work], ⟨hacks, hid, rfl⟩, .inr ⟨w, rfl, hacks, ?_⟩,
        .inr ⟨record, rfl⟩⟩
      rw [← hid, hrow]
  | integrityError w record =>
      exact stepped_move rfl (by simp [hphase, ExecPhase.work]) (by simpa [ExecOk, hphase] using ho)
  | acknowledged w =>
      exact stepped_move rfl (by simp [hphase, ExecPhase.work]) (by simpa [ExecOk, hphase] using ho)
  | raises applied h => exact raises_stepped ho h

end Steps

section Runs

variable [DecidableEq I] [DecidableEq T] {p q : ExecPool D F I T}

structure ExecInv (config : ExecutorConfig D) (p : ExecPool D F I T) : Prop where
  keyed : Keyed p.shared
  ok : ∀ t, ExecOk config (p.loc t)

omit [DecidableEq I] [DecidableEq T] in
theorem execInv_init : ExecInv config (ExecPool.init D F I T) where
  keyed := by simp [Keyed, ExecPool.init]
  ok t := rfl

omit [DecidableEq I] [DecidableEq T] in
theorem storeEvent_keyed {s s' : FailureStore D F I T} {event : StoreEvent D F} (hk : Keyed s)
    (h : storeEvent s event = some s') : Keyed s' := by
  cases event with
  | save record =>
      obtain rfl := Option.some.inj h
      exact hk.insert record
  | delete id =>
      obtain rfl := Option.some.inj h
      intro id' record hrecord
      by_cases hid : id' = id
      · subst hid
        simp at hrecord
      · exact hk id' record (by simpa [hid] using hrecord)

theorem execInv_step (p : ExecPool D F I T) (act : (T × ExecAct D F) ⊕ StoreEvent D F)
    (q : ExecPool D F I T) (hi : ExecInv config p) (h : execPoolStep config home p act = some q) :
    ExecInv config q := by
  obtain ⟨t, act⟩ | event := act
  · obtain ⟨s, l, hl, rfl⟩ := Pool.step_task h
    have hstep := execStep_stepped (hi.ok t) hl
    refine ⟨?_, Pool.forall_loc_move (P := fun _ => ExecOk config) hstep.ok fun t' _ => hi.ok t'⟩
    intro id record hrecord
    rcases hstep.records with heq | ⟨new, heq⟩
    · exact hi.keyed id record (heq ▸ hrecord)
    · exact hi.keyed.insert new id record (heq ▸ hrecord)
  · obtain ⟨s, hs, rfl⟩ := Pool.step_env h
    exact ⟨storeEvent_keyed hi.keyed hs, hi.ok⟩

-- An execution keeps its delivery.
theorem work_step (t : T) (w : Received D) (p : ExecPool D F I T) (act : (T × ExecAct D F) ⊕ StoreEvent D F)
    (q : ExecPool D F I T) (hi : ExecInv config p ∧ (p.loc t).phase.work = some w)
    (h : execPoolStep config home p act = some q) : ExecInv config q ∧ (q.loc t).phase.work = some w := by
  refine ⟨execInv_step p act q hi.1 h, ?_⟩
  obtain ⟨t', act⟩ | event := act
  · obtain ⟨s, l, hl, rfl⟩ := Pool.step_task h
    by_cases ht : t = t'
    · subst ht
      rw [Pool.move_loc_self]
      exact (execStep_stepped (hi.1.ok t) hl).work w hi.2
    · rw [Pool.move_loc_ne _ _ _ ht]
      exact hi.2
  · obtain ⟨s, hs, rfl⟩ := Pool.step_env h
    exact hi.2

-- A record that an execution has seen was in the table at the step that saw it.
theorem seen_committed {acts : List ((T × ExecAct D F) ⊕ StoreEvent D F)} {t : T} {w : Received D}
    (hrun : run (execPoolStep config home) (.init D F I T) acts = some q)
    (hwork : (q.loc t).phase.work = some w) (hseen : (q.loc t).seen.isSome) :
    ∃ before after v record, acts = before ++ after ∧
      run (execPoolStep config home) (.init D F I T) before = some v ∧
      (v.loc t).phase.work = some w ∧ (v.loc t).acknowledges = 0 ∧
      v.shared.records (failureId config w) = some record ∧ record.failureId = failureId config w := by
  obtain ⟨before, act, after, u, v, rfl, hbefore, hstep, hafter, hu, hv⟩ :=
    run_switch (P := fun p : ExecPool D F I T =>
      (p.loc t).seen.isSome = true) hrun (by simp [ExecPool.init]) hseen
  have hiu : ExecInv config u := Reaches.invariant ⟨before, hbefore⟩ execInv_step execInv_init
  have hiv : ExecInv config v := execInv_step u act v hiu hstep
  have hrunv : run (execPoolStep config home) (.init D F I T) (before ++ [act]) = some v :=
    (run_append before [act]).mpr ⟨u, hbefore, (run_cons act []).mpr ⟨v, hstep, rfl⟩⟩
  obtain ⟨t', act⟩ | event := act
  · obtain ⟨s, l, hl, rfl⟩ := Pool.step_task hstep
    have ht : t = t' := by
      by_contra hne
      rw [Pool.move_loc_ne _ _ _ hne] at hv
      exact hu hv
    subst ht
    rw [Pool.move_loc_self] at hv
    rcases (execStep_stepped (hiu.ok t) hl).seen with hsame | ⟨w', hw', hacks, hrow⟩
    · rw [hsame] at hv
      exact absurd hv hu
    · have hlater : Reaches (execPoolStep config home) (u.move t s l) q := ⟨after, hafter⟩
      obtain ⟨-, hw⟩ := hlater.invariant (work_step t w') ⟨hiv, by rw [Pool.move_loc_self]; exact hw'⟩
      obtain rfl : w' = w := Option.some.inj (hw.symm.trans hwork)
      obtain ⟨record, hrecord⟩ := Option.isSome_iff_exists.mp hv
      rw [hrow] at hrecord
      refine ⟨before ++ [.inl (t, act)], after, _, record, by simp, hrunv, ?_, ?_, hrecord, ?_⟩
      · rw [Pool.move_loc_self]
        exact hw'
      · rw [Pool.move_loc_self]
        exact hacks
      · exact hiv.keyed _ _ hrecord
  · obtain ⟨s, hs, rfl⟩ := Pool.step_env hstep
    exact absurd hv hu

-- A row stays as it was first committed until it is deleted.
theorem records_step {act : (T × ExecAct D F) ⊕ StoreEvent D F} {id : Uuid} {record : FailedJobRecord D F}
    (hi : ExecInv config p) (h : execPoolStep config home p act = some q)
    (hrecord : p.shared.records id = some record) (hkept : act ≠ .inr (.delete id)) :
    q.shared.records id = some record := by
  obtain ⟨t, act⟩ | event := act
  · obtain ⟨s, l, hl, rfl⟩ := Pool.step_task h
    rcases (execStep_stepped (hi.ok t) hl).records with heq | ⟨new, heq⟩
    · exact heq ▸ hrecord
    · exact heq ▸ insertRecord_keeps new hrecord
  · obtain ⟨s, hs, rfl⟩ := Pool.step_env h
    cases event with
    | save new =>
        obtain rfl := Option.some.inj hs
        exact insertRecord_keeps new hrecord
    | delete id' =>
        obtain rfl := Option.some.inj hs
        have hid : id ≠ id' := by
          rintro rfl
          exact hkept rfl
        simpa [hid] using hrecord

theorem records_run {acts : List ((T × ExecAct D F) ⊕ StoreEvent D F)} {id : Uuid}
    {record : FailedJobRecord D F} (hi : ExecInv config p)
    (h : run (execPoolStep config home) p acts = some q) (hrecord : p.shared.records id = some record)
    (hkept : .inr (.delete id) ∉ acts) : q.shared.records id = some record := by
  induction acts generalizing p with
  | nil =>
      obtain rfl := Option.some.inj h
      exact hrecord
  | cons act rest ih =>
      obtain ⟨next, hnext, hrest⟩ := (run_cons act rest).mp h
      have hact : act ≠ .inr (.delete id) := fun heq => hkept (heq ▸ List.mem_cons_self)
      exact ih (execInv_step p act next hi hnext) hrest (records_step hi hnext hrecord hact)
        fun hmem => hkept (List.mem_cons_of_mem _ hmem)

omit [DecidableEq I] [DecidableEq T] in
theorem acknowledges_le {l : Execution D F} (ho : ExecOk config l) : l.acknowledges ≤ 1 := by
  unfold ExecOk at ho
  split at ho <;> omega

omit [DecidableEq I] [DecidableEq T] in
theorem settled_of_acknowledges {l : Execution D F} (ho : ExecOk config l) (h : l.acknowledges ≠ 0) :
    l.last = some (.returned false) ∨ l.seen.isSome := by
  unfold ExecOk at ho
  split at ho <;> first | exact ho.2 | exact absurd ho h | exact absurd ho.1 h

theorem acknowledge_settled {acts : List ((T × ExecAct D F) ⊕ StoreEvent D F)}
    (hrun : run (execPoolStep config home) (.init D F I T) acts = some q) :
    -- a call of `acknowledge` comes after a success in time or after the record was committed
    (∀ t w, (q.loc t).phase.work = some w → (q.loc t).acknowledges ≠ 0 →
      (q.loc t).acknowledges = 1 ∧ ((q.loc t).last = some (.returned false) ∨
        ∃ before after v record, acts = before ++ after ∧
          run (execPoolStep config home) (.init D F I T) before = some v ∧
          (v.loc t).phase.work = some w ∧ (v.loc t).acknowledges = 0 ∧
          v.shared.records (failureId config w) = some record ∧
          record.failureId = failureId config w)) ∧
    -- an execution that raises has not called it, unless the call is what raised
    (∀ t w error, (q.loc t).phase = .done w (.error error) → error ≠ .acknowledge →
      (q.loc t).acknowledges = 0) ∧
    -- a record is not overwritten
    (∀ id record more u, q.shared.records id = some record →
      run (execPoolStep config home) q more = some u → .inr (.delete id) ∉ more →
      u.shared.records id = some record) := by
  have hi : ExecInv config q := Reaches.invariant ⟨acts, hrun⟩ execInv_step execInv_init
  refine ⟨?_, ?_, ?_⟩
  · intro t w hw hacks
    have hle := acknowledges_le (hi.ok t)
    refine ⟨by omega, ?_⟩
    rcases settled_of_acknowledges (hi.ok t) hacks with hlast | hseen
    · exact .inl hlast
    · exact .inr (seen_committed hrun hw hseen)
  · intro t w error hphase herror
    have ho := hi.ok t
    cases error <;> simp_all [ExecOk]
  · intro id record more u hrecord hmore hkept
    exact records_run hi hmore hrecord hkept

end Runs

-- The functions of the standard library at a payload that is no envelope.
def brokenPayload : ExecutorConfig Nat where
  connection := "main"
  queue := "default"
  decode _ := .error .invalidMessage
  sha256 _ := "a8100ae6aa1940d0b663bb31cd466142ebbdbd5187131b92d93818987832eb89"
  uuid5 _ := 0xe2c280e6ebf35228b86f529344271654
  printable _ := true

-- The acknowledgement of a bad message raises after its record was saved; the second delivery
-- finds the record and is only acknowledged.
theorem acknowledge_settled_redelivered : ∃ acts q,
    run (execPoolStep (F := Nat) brokenPayload fun _ : Nat => ()) (.init Nat Nat Unit Nat) acts = some q ∧
      (q.loc 1).resolved = false ∧ (q.loc 1).last = none ∧
      ∃ before after v record, acts = before ++ after ∧
        run (execPoolStep brokenPayload fun _ : Nat => ()) (.init Nat Nat Unit Nat) before = some v ∧
        (v.loc 1).phase.work = some ⟨⟨[255], true⟩, none⟩ ∧ (v.loc 1).acknowledges = 0 ∧
        v.shared.records (failureId brokenPayload ⟨⟨[255], true⟩, none⟩) = some record ∧
        record.failureId = failureId brokenPayload ⟨⟨[255], true⟩, none⟩ := by
  let acts : List ((Nat × ExecAct Nat Nat) ⊕ StoreEvent Nat Nat) :=
    [.inl (0, .execute ⟨[255], false⟩), .inl (0, .finish 8), .inl (0, .acquire), .inl (0, .commit),
      .inl (0, .returns), .inl (0, .raises false), .inl (1, .execute ⟨[255], true⟩), .inl (1, .get),
      .inl (1, .returns), .inl (1, .acknowledged)]
  refine ⟨acts, _, rfl, rfl, rfl, ?_⟩
  have hrun : run (execPoolStep brokenPayload fun _ : Nat => ())
    (.init Nat Nat Unit Nat) acts = some _ := rfl
  exact ((acknowledge_settled hrun).1 1 ⟨⟨[255], true⟩, none⟩ rfl (by decide)).2.resolve_left nofun

end Scaffold.Worker
