import Scaffold.Scheduler.Engine
import Mathlib.Data.List.Nodup

namespace Scaffold.Scheduler

open Machine

variable {J : Type*} {cronValid : CronSchedule → Bool} {definitions : List (QueueJobSchedule J)}

-- The initial dispatches have been awaited by `aclose`.
def ClosePhase.gathered : ClosePhase → Bool
  | .draining _ => true
  | .shuttingDown => true
  | .returned => true
  | _ => false

-- The executor has been drained by `aclose`.
def ClosePhase.drained : ClosePhase → Bool
  | .shuttingDown => true
  | .returned => true
  | _ => false

structure EngineInv (s : EngineState J) : Prop where
  closed : s.close ≠ .notCalled → s.closed = true
  owner : s.started = true → s.scheduler = true
  running : s.aps = .running → s.close = .notCalled ∨ ∃ error, s.close = .raised error
  idle : s.started = false → s.close = .notCalled →
    s.aps = .created ∧ (∀ id, (s.initial id).isLive = false) ∧ ∀ f, (s.futures f).isLive = false
  tracked : ∀ id, (s.initial id).isLive = true → id ∈ s.initialDispatches
  pending : ∀ f, (s.futures f).isLive = true → f ∈ s.pendingFutures
  gathering : ∀ tasks, s.close = .gathering tasks →
    ∀ id, (s.initial id).isLive = true → id ∈ tasks
  gathered : s.close.gathered = true → ∀ id, (s.initial id).isLive = false
  drained : s.close.drained = true → ∀ f, (s.futures f).isLive = false
  cancelled : s.cancelled = []

theorem engineInv_init : EngineInv ({} : EngineState J) := by
  constructor <;> simp [InitialPhase.isLive, FuturePhase.isLive, ClosePhase.gathered, ClosePhase.drained]

-- `start` either raises before anything runs or starts the scheduler and its initial tasks.
theorem startEngine_cases (cronValid : CronSchedule → Bool)
    (definitions : List (QueueJobSchedule J)) (s : EngineState J) (clock : String → Option Int)
    (addOk : String → Bool) (startOk : Bool) :
    (∃ scheduler jobs error,
      startEngine cronValid definitions s clock addOk startOk =
        { s with scheduler := scheduler, jobs := jobs, start := .raised error } ∧
      (s.scheduler = true → scheduler = true) ∧ error ≠ .registrationFailed) ∨
    (s.closed = false ∧ s.scheduler = false ∧ ∃ jobs immediate,
      planDefinitions cronValid s clock addOk definitions = (jobs, some immediate) ∧
      startEngine cronValid definitions s clock addOk startOk =
        { s with
          scheduler := true, jobs := s.jobs ++ jobs, aps := .running, started := true
          initial := createInitial immediate, initialDispatches := immediate.map (·.id)
          start := if immediate = [] then .returned else .waiting }) := by
  unfold startEngine
  by_cases hclosed : s.closed = true
  · rw [if_pos hclosed]
    exact .inl ⟨_, _, .alreadyClosed, rfl, id, by decide⟩
  rw [if_neg hclosed]
  by_cases hscheduler : s.scheduler = true
  · rw [if_pos hscheduler]
    exact .inl ⟨_, _, .alreadyStarted, rfl, id, by decide⟩
  rw [if_neg hscheduler]
  rcases hplan : planDefinitions cronValid s clock addOk definitions with ⟨jobs, _ | immediate⟩
  · exact .inl ⟨_, _, .configuration, rfl, fun _ => rfl, by decide⟩
  · cases startOk with
    | false => exact .inl ⟨_, _, .startFailed, rfl, fun _ => rfl, by decide⟩
    | true =>
        exact .inr ⟨by simpa using hclosed, by simpa using hscheduler, jobs, immediate, rfl, rfl⟩

theorem createInitial_live {immediate : List (QueueJobSchedule J)} {id : String}
    (h : (createInitial immediate id).isLive = true) : id ∈ immediate.map (·.id) := by
  unfold createInitial at h
  split at h
  · rename_i d hd
    have hid := List.find?_some hd
    exact List.mem_map.mpr ⟨d, List.mem_of_find?_eq_some hd, by simpa using hid⟩
  · simp [InitialPhase.isLive] at h

theorem EngineInv.start {s : EngineState J} (h : EngineInv s) (clock : String → Option Int)
    (addOk : String → Bool) (startOk : Bool) :
    EngineInv (startEngine cronValid definitions s clock addOk startOk) := by
  rcases startEngine_cases cronValid definitions s clock addOk startOk with
    ⟨scheduler, jobs, error, heq, hown, -⟩ | ⟨hclosed, hscheduler, jobs, immediate, -, heq⟩
  · rw [heq]
    exact { h with owner := fun hs => hown (h.owner hs) }
  · have hopen : s.close = .notCalled := by
      by_contra hne
      simp [h.closed hne] at hclosed
    rw [heq]
    exact { h with
      owner := fun _ => rfl
      running := fun _ => .inl hopen
      idle := by simp
      tracked := fun id hid => createInitial_live hid
      gathering := by simp [hopen]
      gathered := by simp [hopen, ClosePhase.gathered] }

-- A task or a future that moves on without becoming live again.
theorem EngineInv.moveInitial {s : EngineState J} (h : EngineInv s) {id : String}
    {phase : InitialPhase J} (hlive : phase.isLive = true → (s.initial id).isLive = true)
    (jobs : List (Registration J)) (calls : List (Origin × DispatchCall J)) (finished : List Origin) :
    EngineInv { s with
      initial := Function.update s.initial id phase
      jobs := jobs, calls := calls, finished := finished } := by
  have hback : ∀ id', ((Function.update s.initial id phase) id').isLive = true →
      (s.initial id').isLive = true := by
    intro id' hid
    by_cases hne : id' = id
    · subst hne
      exact hlive (by simpa using hid)
    · simpa [hne] using hid
  have hforth : ∀ id', (s.initial id').isLive = false →
      ((Function.update s.initial id phase) id').isLive = false := by
    intro id' hid
    by_contra hne
    simp [hback id' (by simpa using hne)] at hid
  exact { h with
    idle := fun hs hc => ⟨(h.idle hs hc).1, fun id' => hforth id' ((h.idle hs hc).2.1 id'),
      (h.idle hs hc).2.2⟩
    tracked := fun id' hid => h.tracked id' (hback id' hid)
    gathering := fun tasks hc id' hid => h.gathering tasks hc id' (hback id' hid)
    gathered := fun hc id' => hforth id' (h.gathered hc id') }

theorem EngineInv.moveFutures {s : EngineState J} (h : EngineInv s) {futures : Nat → FuturePhase J}
    (hlive : ∀ f, (futures f).isLive = true → (s.futures f).isLive = true)
    (calls : List (Origin × DispatchCall J)) (finished : List Origin) :
    EngineInv { s with futures := futures, calls := calls, finished := finished } := by
  have hforth : ∀ f, (s.futures f).isLive = false → (futures f).isLive = false := by
    intro f hf
    by_contra hne
    simp [hlive f (by simpa using hne)] at hf
  exact { h with
    idle := fun hs hc => ⟨(h.idle hs hc).1, (h.idle hs hc).2.1, fun f => hforth f ((h.idle hs hc).2.2 f)⟩
    pending := fun f hf => h.pending f (hlive f hf)
    drained := fun hc f => hforth f (h.drained hc f) }

theorem update_future_live {s : EngineState J} {f : Nat} {phase : FuturePhase J}
    (hlive : (s.futures f).isLive = true) (g : Nat)
    (hg : ((Function.update s.futures f phase) g).isLive = true) : (s.futures g).isLive = true := by
  by_cases hne : g = f
  · subst hne
    exact hlive
  · simpa [hne] using hg

theorem EngineInv.finishInitial {s : EngineState J} (h : EngineInv s) (d : QueueJobSchedule J)
    (outcome : DispatchOutcome) (clock : Option Int) (addOk : Bool) :
    EngineInv (finishInitial cronValid s d outcome clock addOk) := by
  have hdead : ∀ outcome : DispatchOutcome, (InitialPhase.ended (J := J) outcome).isLive = true →
      (s.initial d.id).isLive = true := by
    intro outcome hlive
    simp [InitialPhase.isLive] at hlive
  unfold Scheduler.finishInitial
  simp only
  split_ifs with hcancel hclosed
  · exact h.moveInitial (hdead _) s.jobs s.calls _
  · exact h.moveInitial (hdead _) s.jobs s.calls _
  · split
    · exact h.moveInitial (hdead _) s.jobs s.calls _
    · exact h.moveInitial (hdead _) _ s.calls _

theorem EngineInv.drain {s : EngineState J} (h : EngineInv s) (hclosed : s.closed = true)
    (haps : s.aps ≠ .running) (hquiet : ∀ id, (s.initial id).isLive = false) :
    EngineInv (drain s) := by
  unfold Scheduler.drain
  split_ifs with hp
  · have hdead : ∀ f, (s.futures f).isLive = false := by
      intro f
      by_contra hlive
      have hf := h.pending f (by simpa using hlive)
      simp [hp] at hf
    exact { h with
      closed := fun _ => hclosed
      running := fun hr => absurd hr haps
      idle := by simp
      gathering := by simp
      gathered := fun _ => hquiet
      drained := fun _ => hdead }
  · exact { h with
      closed := fun _ => hclosed
      running := fun hr => absurd hr haps
      idle := by simp
      gathering := by simp
      gathered := fun _ => hquiet
      drained := by simp [ClosePhase.drained] }

theorem EngineInv.aclose {s : EngineState J} (h : EngineInv s) (hopen : s.close = .notCalled)
    (pauseOk : Bool) : EngineInv (acloseEngine s pauseOk) := by
  have hgathering : EngineInv { s with
      scheduler := false, started := false, closed := true, aps := .paused
      close := .gathering s.initialDispatches } := { h with
    closed := fun _ => rfl
    owner := by simp
    running := by simp
    idle := by simp
    gathering := by
      intro tasks htasks id hid
      obtain rfl := ClosePhase.gathering.inj htasks
      exact h.tracked id hid
    gathered := by simp [ClosePhase.gathered]
    drained := by simp [ClosePhase.drained] }
  unfold acloseEngine
  simp only
  split_ifs with hactive hpause hempty
  · have hquiet : ∀ id, (s.initial id).isLive = false := by
      intro id
      by_contra hlive
      have hid := h.tracked id (by simpa using hlive)
      simp [hempty] at hid
    exact hgathering.drain rfl (by simp) hquiet
  · exact hgathering
  · exact { h with
      closed := fun _ => rfl
      owner := by simp
      running := fun _ => .inr ⟨_, rfl⟩
      idle := by simp
      gathering := by simp
      gathered := by simp [ClosePhase.gathered]
      drained := by simp [ClosePhase.drained] }
  · have hstarted : s.started = false := by
      by_contra hs
      have hs : s.started = true := by simpa using hs
      simp [hs, h.owner hs] at hactive
    obtain ⟨haps, hinitial, hfutures⟩ := h.idle hstarted hopen
    exact { h with
      closed := fun _ => rfl
      owner := by simp
      running := by simp [haps]
      idle := by simp
      gathering := by simp
      gathered := fun _ => hinitial
      drained := fun _ => hfutures }

theorem EngineInv.shutdown {s : EngineState J} (h : EngineInv s) (hclose : s.close = .shuttingDown) :
    EngineInv (shutdown s) := by
  have hdead : ∀ f, (s.futures f).isLive = false := h.drained (by simp [hclose, ClosePhase.drained])
  have hkept : (Scheduler.shutdown s).futures = s.futures := by
    funext f
    have hf := hdead f
    cases hphase : s.futures f <;> simp_all [Scheduler.shutdown, FuturePhase.isLive]
  have hnone : s.pendingFutures.filter (fun f => (s.futures f).isCalling) = [] := by
    apply List.filter_eq_nil_iff.mpr
    intro f _ hcalling
    have hf := hdead f
    cases hphase : s.futures f <;> simp_all [FuturePhase.isLive, FuturePhase.isCalling]
  have hcancelled : (Scheduler.shutdown s).cancelled = [] := by
    simp [Scheduler.shutdown, h.cancelled, hnone]
  have hsame : Scheduler.shutdown s = { s with aps := .down, cancelled := [] } := by
    have heq : Scheduler.shutdown s = { s with
        aps := .down, cancelled := (Scheduler.shutdown s).cancelled
        futures := (Scheduler.shutdown s).futures } := rfl
    rw [heq, hkept, hcancelled]
  rw [hsame]
  exact { h with
    running := by simp
    idle := by simp [hclose]
    cancelled := rfl }

-- The moves of the engine, each with what it requires.
inductive EngineMove (cronValid : CronSchedule → Bool) (definitions : List (QueueJobSchedule J))
    (s : EngineState J) : EngineAct → EngineState J → Prop
  | start (clock : String → Option Int) (addOk : String → Bool) (startOk : Bool)
      (hs : s.start = .notCalled) :
    EngineMove cronValid definitions s (.start clock addOk startOk)
      (startEngine cronValid definitions s clock addOk startOk)
  | initialStarts (id : String) (d : QueueJobSchedule J) (hd : s.initial id = .created d) :
    EngineMove cronValid definitions s (.initialStarts id) { s with
      initial := Function.update s.initial id (.dispatching d)
      calls := s.calls ++ [(.initial id, buildCallback d)] }
  | initialEnds (id : String) (d : QueueJobSchedule J) (outcome : DispatchOutcome) (clock : Option Int)
      (addOk : Bool) (hd : s.initial id = .dispatching d) :
    EngineMove cronValid definitions s (.initialEnds id outcome clock addOk)
      (finishInitial cronValid s d outcome clock addOk)
  | discardInitial (id : String) (hended : (s.initial id).hasEnded = true) :
    EngineMove cronValid definitions s (.discardInitial id)
      { s with initialDispatches := s.initialDispatches.filter (· ≠ id) }
  | startWakes (phase : StartPhase) (hphase : phase = .returned ∨ phase = .raised .registrationFailed)
      (hs : s.start = .waiting) (hended : ∀ d ∈ definitions, startsImmediately d = true →
        (s.initial d.id).hasEnded = true) :
    EngineMove cronValid definitions s .startWakes { s with start := phase }
  | cancelStart (hs : s.start = .waiting) :
    EngineMove cronValid definitions s .cancelStart { s with start := .cancelled }
  | fire (f job : Nat) (registration : Registration J) (hf : s.futures f = .absent)
      (hjob : s.jobs[job]? = some registration) (haps : s.aps = .running) :
    EngineMove cronValid definitions s (.fire f job) { s with
      futures := Function.update s.futures f (.queued registration.call)
      pendingFutures := f :: s.pendingFutures }
  | futureCalls (f : Nat) (call : DispatchCall J) (hf : s.futures f = .queued call) :
    EngineMove cronValid definitions s (.futureCalls f) { s with
      futures := Function.update s.futures f (.calling call)
      calls := s.calls ++ [(.future f, call)] }
  | futureCallsAgain (f : Nat) (call : DispatchCall J) (hf : s.futures f = .calling call) :
    EngineMove cronValid definitions s (.futureCalls f) { s with
      futures := Function.update s.futures f (.calling call)
      calls := s.calls ++ [(.future f, call)]
      finished := s.finished ++ [.future f] }
  | futureMisses (f : Nat) (call : DispatchCall J) (hf : s.futures f = .queued call) :
    EngineMove cronValid definitions s (.futureEnds f)
      { s with futures := Function.update s.futures f .ended }
  | futureEnds (f : Nat) (call : DispatchCall J) (hf : s.futures f = .calling call) :
    EngineMove cronValid definitions s (.futureEnds f) { s with
      futures := Function.update s.futures f .ended
      finished := s.finished ++ [.future f] }
  | discardFuture (f : Nat) (hended : (s.futures f).hasEnded = true) :
    EngineMove cronValid definitions s (.discardFuture f)
      { s with pendingFutures := s.pendingFutures.filter (· ≠ f) }
  | aclose (pauseOk : Bool) (hclose : s.close = .notCalled) :
    EngineMove cronValid definitions s (.aclose pauseOk) (acloseEngine s pauseOk)
  | gatherDone (tasks : List String) (hclose : s.close = .gathering tasks)
      (hended : ∀ id ∈ tasks, (s.initial id).hasEnded = true) :
    EngineMove cronValid definitions s .gatherDone (drain s)
  | drainDone (futures : List Nat) (hclose : s.close = .draining futures)
      (hended : ∀ f ∈ futures, (s.futures f).hasEnded = true) :
    EngineMove cronValid definitions s .drainDone (drain s)
  | shutdownRuns (hclose : s.close = .shuttingDown) (haps : s.aps = .paused) :
    EngineMove cronValid definitions s .shutdownRuns (shutdown s)
  | acloseWakes (hclose : s.close = .shuttingDown) (haps : s.aps = .down) :
    EngineMove cronValid definitions s .acloseWakes { s with close := .returned }

theorem engineMove_of_step {s t : EngineState J} {act : EngineAct}
    (hstep : engineStep cronValid definitions s act = some t) :
    EngineMove cronValid definitions s act t := by
  cases act with
  | start clock addOk startOk =>
      obtain ⟨hs, rfl⟩ := guarded hstep
      exact .start clock addOk startOk hs
  | initialStarts id =>
      simp only [engineStep] at hstep
      split at hstep
      · rename_i d hd
        obtain rfl := Option.some.inj hstep
        exact .initialStarts id d hd
      · cases hstep
  | initialEnds id outcome clock addOk =>
      simp only [engineStep] at hstep
      split at hstep
      · rename_i d hd
        obtain rfl := Option.some.inj hstep
        exact .initialEnds id d outcome clock addOk hd
      · cases hstep
  | discardInitial id =>
      obtain ⟨hended, rfl⟩ := guarded hstep
      exact .discardInitial id hended
  | startWakes =>
      simp only [engineStep] at hstep
      split at hstep
      · rename_i hwake
        have hended : ∀ d ∈ definitions, startsImmediately d = true →
            (s.initial d.id).hasEnded = true := by
          intro d hd himmediate
          exact List.all_eq_true.mp hwake.2 (s.initial d.id)
            (List.mem_map_of_mem (List.mem_filter.mpr ⟨hd, himmediate⟩))
        split at hstep
        · obtain rfl := Option.some.inj hstep
          exact .startWakes .returned (.inl rfl) hwake.1 hended
        · obtain rfl := Option.some.inj hstep
          exact .startWakes (.raised .registrationFailed) (.inr rfl) hwake.1 hended
      · cases hstep
  | cancelStart =>
      obtain ⟨hs, rfl⟩ := guarded hstep
      exact .cancelStart hs
  | fire f job =>
      simp only [engineStep] at hstep
      split at hstep
      · rename_i registration hf hjob
        obtain ⟨haps, rfl⟩ := guarded hstep
        exact .fire f job registration hf hjob haps
      · cases hstep
  | futureCalls f =>
      simp only [engineStep] at hstep
      split at hstep
      · rename_i call hf
        obtain rfl := Option.some.inj hstep
        exact .futureCalls f call hf
      · rename_i call hf
        obtain rfl := Option.some.inj hstep
        exact .futureCallsAgain f call hf
      · cases hstep
  | futureEnds f =>
      simp only [engineStep] at hstep
      split at hstep
      · rename_i call hf
        obtain rfl := Option.some.inj hstep
        exact .futureMisses f call hf
      · rename_i call hf
        obtain rfl := Option.some.inj hstep
        exact .futureEnds f call hf
      · cases hstep
  | discardFuture f =>
      obtain ⟨hended, rfl⟩ := guarded hstep
      exact .discardFuture f hended
  | aclose pauseOk =>
      obtain ⟨hclose, rfl⟩ := guarded hstep
      exact .aclose pauseOk hclose
  | gatherDone =>
      simp only [engineStep] at hstep
      split at hstep
      · rename_i tasks hclose
        obtain ⟨hall, rfl⟩ := guarded hstep
        exact .gatherDone tasks hclose (List.all_eq_true.mp hall)
      · cases hstep
  | drainDone =>
      simp only [engineStep] at hstep
      split at hstep
      · rename_i futures hclose
        obtain ⟨hall, rfl⟩ := guarded hstep
        exact .drainDone futures hclose (List.all_eq_true.mp hall)
      · cases hstep
  | shutdownRuns =>
      obtain ⟨⟨hclose, haps⟩, rfl⟩ := guarded hstep
      exact .shutdownRuns hclose haps
  | acloseWakes =>
      obtain ⟨⟨hclose, haps⟩, rfl⟩ := guarded hstep
      exact .acloseWakes hclose haps

theorem InitialPhase.not_live_of_ended {phase : InitialPhase J} (h : phase.hasEnded = true) :
    phase.isLive = false := by
  cases phase <;> simp_all [InitialPhase.isLive, InitialPhase.hasEnded]

theorem FuturePhase.not_live_of_ended {phase : FuturePhase J} (h : phase.hasEnded = true) :
    phase.isLive = false := by
  cases phase <;> simp_all [FuturePhase.isLive, FuturePhase.hasEnded]

theorem engineStep_inv (s : EngineState J) (act : EngineAct) (t : EngineState J)
    (h : EngineInv s) (hstep : engineStep cronValid definitions s act = some t) : EngineInv t := by
  cases engineMove_of_step hstep with
  | start clock addOk startOk hs => exact h.start clock addOk startOk
  | initialStarts id d hd =>
      exact h.moveInitial (by simp [hd, InitialPhase.isLive]) s.jobs _ s.finished
  | initialEnds id d outcome clock addOk hd => exact h.finishInitial _ outcome clock addOk
  | discardInitial id hended =>
      exact { h with
        tracked := by
          intro id' hlive
          have hne : id' ≠ id := by
            rintro rfl
            cases hlive.symm.trans (InitialPhase.not_live_of_ended hended)
          simpa [hne] using h.tracked id' hlive }
  | startWakes phase hphase hs hended => exact { h with }
  | cancelStart hs => exact { h with }
  | fire f job registration hf hjob haps =>
      have hopen := h.running haps
      exact { h with
        idle := by
          intro hs hc
          have hcreated := (h.idle hs hc).1
          simp [haps] at hcreated
        pending := by
          intro g hg
          by_cases hne : g = f
          · simp [hne]
          · have hlive : (s.futures g).isLive = true := by simpa [hne] using hg
            simp [h.pending g hlive]
        drained := by
          intro hd
          rcases hopen with hopen | ⟨error, hopen⟩ <;> simp [hopen, ClosePhase.drained] at hd }
  | futureCalls f call hf =>
      exact h.moveFutures (update_future_live (by simp [hf, FuturePhase.isLive])) _ _
  | futureCallsAgain f call hf =>
      exact h.moveFutures (update_future_live (by simp [hf, FuturePhase.isLive])) _ _
  | futureMisses f call hf =>
      exact h.moveFutures (update_future_live (by simp [hf, FuturePhase.isLive])) s.calls s.finished
  | futureEnds f call hf =>
      exact h.moveFutures (update_future_live (by simp [hf, FuturePhase.isLive])) s.calls _
  | discardFuture f hended =>
      exact { h with
        pending := by
          intro g hlive
          have hne : g ≠ f := by
            rintro rfl
            cases hlive.symm.trans (FuturePhase.not_live_of_ended hended)
          simpa [hne] using h.pending g hlive }
  | aclose pauseOk hclose => exact h.aclose hclose pauseOk
  | gatherDone tasks hclose hended =>
      have hquiet : ∀ id, (s.initial id).isLive = false := by
        intro id
        by_contra hlive
        have hid := h.gathering tasks hclose id (by simpa using hlive)
        exact hlive (InitialPhase.not_live_of_ended (hended id hid))
      exact h.drain (h.closed (by simp [hclose])) (fun hr => by simpa [hclose] using h.running hr) hquiet
  | drainDone futures hclose hended =>
      exact h.drain (h.closed (by simp [hclose])) (fun hr => by simpa [hclose] using h.running hr)
        (h.gathered (by simp [hclose, ClosePhase.gathered]))
  | shutdownRuns hclose haps => exact h.shutdown hclose
  | acloseWakes hclose haps =>
      exact { h with
        closed := fun _ => h.closed (by simp [hclose])
        running := by simp [haps]
        idle := by simp
        gathering := by simp
        gathered := fun _ => h.gathered (by simp [hclose, ClosePhase.gathered])
        drained := fun _ => h.drained (by simp [hclose, ClosePhase.drained]) }

-- No dispatcher call is running.
def EngineState.Quiet (s : EngineState J) : Prop :=
  (∀ id d, s.initial id ≠ .dispatching d) ∧ ∀ f call, s.futures f ≠ .calling call

theorem EngineInv.quiet {s : EngineState J} (h : EngineInv s) (hc : s.close = .returned) : s.Quiet := by
  constructor
  · intro id d hid
    have hdead := h.gathered (by simp [hc, ClosePhase.gathered]) id
    simp [hid, InitialPhase.isLive] at hdead
  · intro f call hf
    have hdead := h.drained (by simp [hc, ClosePhase.drained]) f
    simp [hf, FuturePhase.isLive] at hdead

-- After `aclose` has returned there is nothing left that could call the dispatcher.
theorem engineStep_returned {s t : EngineState J} {act : EngineAct} (h : EngineInv s)
    (hc : s.close = .returned) (hstep : engineStep cronValid definitions s act = some t) :
    t.close = .returned ∧ t.calls = s.calls := by
  have hinitial := h.gathered (by simp [hc, ClosePhase.gathered])
  have hfutures := h.drained (by simp [hc, ClosePhase.drained])
  cases engineMove_of_step hstep with
  | start clock addOk startOk hs =>
      have hclosed := h.closed (by simp [hc])
      simp [startEngine, hclosed, hc]
  | initialStarts id d hd =>
      have hid := hinitial id
      simp [hd, InitialPhase.isLive] at hid
  | initialEnds id d outcome clock addOk hd =>
      have hid := hinitial id
      simp [hd, InitialPhase.isLive] at hid
  | futureCalls f call hf =>
      have hdead := hfutures f
      simp [hf, FuturePhase.isLive] at hdead
  | futureCallsAgain f call hf =>
      have hdead := hfutures f
      simp [hf, FuturePhase.isLive] at hdead
  | futureMisses f call hf => exact ⟨hc, rfl⟩
  | futureEnds f call hf => exact ⟨hc, rfl⟩
  | fire f job registration hf hjob haps => exact ⟨hc, rfl⟩
  | discardInitial id hended => exact ⟨hc, rfl⟩
  | startWakes phase hphase hs hended => exact ⟨hc, rfl⟩
  | cancelStart hs => exact ⟨hc, rfl⟩
  | discardFuture f hended => exact ⟨hc, rfl⟩
  | aclose pauseOk hclose => cases hclose.symm.trans hc
  | gatherDone tasks hclose hended => cases hclose.symm.trans hc
  | drainDone futures hclose hended => cases hclose.symm.trans hc
  | shutdownRuns hclose haps => cases hclose.symm.trans hc
  | acloseWakes hclose haps => cases hclose.symm.trans hc

theorem returned_reaches {s t : EngineState J} (h : EngineInv s) (hc : s.close = .returned)
    (hst : Reaches (engineStep cronValid definitions) s t) :
    t.close = .returned ∧ t.calls = s.calls := by
  refine hst.relation (r := fun s t => s.close = .returned → t.close = .returned ∧ t.calls = s.calls)
    engineStep_inv h (fun s hs => ⟨hs, rfl⟩) ?_ (fun s act t hi hstep hs =>
      engineStep_returned hi hs hstep) hc
  intro s t u hst htu hs
  obtain ⟨ht, hcalls⟩ := hst hs
  obtain ⟨hu, hcalls'⟩ := htu ht
  exact ⟨hu, hcalls'.trans hcalls⟩

-- The scheduler was started by `start`.
def StartPhase.ran : StartPhase → Bool
  | .waiting => true
  | .cancelled => true
  | .returned => true
  | .raised error => error = .registrationFailed
  | .notCalled => false

-- The gather over the initial dispatches ended under `start`.
def StartPhase.awaited : StartPhase → Bool
  | .returned => true
  | .raised error => error = .registrationFailed
  | _ => false

def registrations (jobs : List (Registration J)) (id : String) : Nat :=
  jobs.countP fun job => job.id = id

def initialCalls (calls : List (Origin × DispatchCall J)) (id : String) : Nat :=
  calls.countP fun call => call.1 = .initial id

def InitialPhase.dispatches : InitialPhase J → Nat
  | .absent => 0
  | .created _ => 0
  | .dispatching _ => 1
  | .ended _ => 1

def InitialPhase.registrations : InitialPhase J → Nat
  | .ended _ => 1
  | _ => 0

structure PlanInv (definitions : List (QueueJobSchedule J)) (s : EngineState J) : Prop where
  fresh : s.start = .notCalled → s.jobs = [] ∧ s.aps ≠ .running
  before : s.start.ran = false → ∀ id, s.initial id = .absent
  calls : ∀ id, initialCalls s.calls id = (s.initial id).dispatches
  created : ∀ id d, s.initial id = .created d → d ∈ definitions ∧ startsImmediately d = true ∧ d.id = id
  dispatching : ∀ id d, s.initial id = .dispatching d →
    d ∈ definitions ∧ startsImmediately d = true ∧ d.id = id
  callback : ∀ d ∈ definitions, ∀ call ∈ s.calls, call.1 = .initial d.id → call.2 = buildCallback d
  present : s.start.ran = true → ∀ d ∈ definitions, startsImmediately d = true → s.initial d.id ≠ .absent
  awaited : s.start.awaited = true → ∀ d ∈ definitions, startsImmediately d = true →
    (s.initial d.id).hasEnded = true
  registered : s.start.ran = true → ∀ d ∈ definitions, startsImmediately d = true →
    registrations s.jobs d.id ≤ (s.initial d.id).registrations ∧
      ∀ job ∈ s.jobs, job.id = d.id → job.dispatched = true ∧ job.closed = false
  others : s.start.ran = true → ∀ d ∈ definitions, startsImmediately d = false →
    s.initial d.id = .absent ∧ registrations s.jobs d.id = 1 ∧
      ∀ job ∈ s.jobs, job.id = d.id → job.running = false

theorem planInv_init : PlanInv definitions ({} : EngineState J) := by
  constructor <;> simp [StartPhase.ran, StartPhase.awaited, initialCalls, InitialPhase.dispatches]

theorem register_spec {s : EngineState J} {clock : Option Int} {addOk : Bool} {d : QueueJobSchedule J}
    {job : Registration J} (h : register cronValid s clock addOk d = some job) :
    job.id = d.id ∧ job.running = decide (s.aps = .running) ∧ job.closed = s.closed ∧
      job.dispatched = decide (.initial d.id ∈ s.finished) := by
  unfold register at h
  split at h
  · cases h
  · obtain ⟨-, rfl⟩ := guarded h
    exact ⟨rfl, rfl, rfl, rfl⟩

-- The loop of `start` registers every definition that does not start immediately, once.
theorem planDefinitions_spec {s : EngineState J} {clock : String → Option Int} {addOk : String → Bool}
    {definitions : List (QueueJobSchedule J)} {jobs : List (Registration J)}
    {immediate : List (QueueJobSchedule J)}
    (h : planDefinitions cronValid s clock addOk definitions = (jobs, some immediate)) :
    immediate = definitions.filter (startsImmediately ·) ∧
      jobs.map (·.id) = (definitions.filter (!startsImmediately ·)).map (·.id) ∧
      ∀ job ∈ jobs, job.running = decide (s.aps = .running) := by
  induction definitions generalizing jobs immediate with
  | nil =>
      simp only [planDefinitions, Prod.mk.injEq, Option.some.injEq] at h
      obtain ⟨rfl, rfl⟩ := h
      simp
  | cons d rest ih =>
      rcases hplan : planDefinitions cronValid s clock addOk rest with ⟨restJobs, restImmediate⟩
      by_cases hd : startsImmediately d = true
      · simp only [planDefinitions, hd, if_true, hplan] at h
        split at h
        · cases h
        · obtain ⟨rfl, himmediate⟩ := Prod.mk.inj h
          obtain ⟨immediate', rfl, rfl⟩ := Option.map_eq_some_iff.mp himmediate
          obtain ⟨hi, hj, hr⟩ := ih hplan
          exact ⟨by simp [hd, hi], by simp [hd, hj], hr⟩
      · simp only [planDefinitions, hd, if_false, hplan, Bool.false_eq_true] at h
        split at h
        · cases h
        · rename_i job hjob
          obtain ⟨rfl, rfl⟩ := Prod.mk.inj h
          obtain ⟨hi, hj, hr⟩ := ih hplan
          obtain ⟨hid, hrun, -⟩ := register_spec hjob
          refine ⟨by simp [hd, hi], by simp [hd, hj, hid], ?_⟩
          intro job' hmem
          rcases List.mem_cons.mp hmem with rfl | hmem
          · exact hrun
          · exact hr job' hmem

theorem definition_unique (hids : (definitions.map (·.id)).Nodup) {d e : QueueJobSchedule J}
    (hd : d ∈ definitions) (he : e ∈ definitions) (h : d.id = e.id) : d = e :=
  List.inj_on_of_nodup_map hids hd he h

theorem createInitial_of_mem (hids : (definitions.map (·.id)).Nodup)
    {d : QueueJobSchedule J} (hd : d ∈ definitions) (hi : startsImmediately d = true) :
    createInitial (definitions.filter (startsImmediately ·)) d.id = .created d := by
  have hmem : d ∈ definitions.filter (startsImmediately ·) := List.mem_filter.mpr ⟨hd, hi⟩
  unfold createInitial
  split
  · rename_i e he
    have hid : e.id = d.id := by simpa using List.find?_some he
    have hmem' := List.mem_filter.mp (List.mem_of_find?_eq_some he)
    rw [definition_unique hids hmem'.1 hd hid]
  · rename_i hnone
    simpa using List.find?_eq_none.mp hnone d hmem

theorem createInitial_cases (immediate : List (QueueJobSchedule J)) (id : String) :
    (createInitial immediate id = .absent ∧ ∀ d ∈ immediate, d.id ≠ id) ∨
      ∃ d ∈ immediate, d.id = id ∧ createInitial immediate id = .created d := by
  rcases hfind : immediate.find? (·.id = id) with _ | d
  · refine .inl ⟨by simp [createInitial, hfind], ?_⟩
    intro d hd hid
    simpa [hid] using List.find?_eq_none.mp hfind d hd
  · refine .inr ⟨d, List.mem_of_find?_eq_some hfind, ?_, by simp [createInitial, hfind]⟩
    simpa using List.find?_some hfind

theorem countP_id_eq_count (jobs : List (Registration J)) (id : String) :
    (jobs.countP fun job => job.id = id) = (jobs.map (·.id)).count id := by
  rw [List.count, List.countP_map]
  rfl

theorem PlanInv.start {s : EngineState J} (hids : (definitions.map (·.id)).Nodup)
    (h : PlanInv definitions s) (hs : s.start = .notCalled) (clock : String → Option Int)
    (addOk : String → Bool) (startOk : Bool) :
    PlanInv definitions (startEngine cronValid definitions s clock addOk startOk) := by
  have habsent : ∀ id, s.initial id = .absent := h.before (by simp [hs, StartPhase.ran])
  rcases startEngine_cases cronValid definitions s clock addOk startOk with
    ⟨scheduler, jobs, error, heq, -, herror⟩ | ⟨-, -, jobs, immediate, hplan, heq⟩
  · have hnot : (StartPhase.raised error).ran = false := by simp [StartPhase.ran, herror]
    have hnot' : (StartPhase.raised error).awaited = false := by simp [StartPhase.awaited, herror]
    rw [heq]
    exact { h with
      fresh := by simp
      before := fun _ => habsent
      present := by simp [hnot]
      awaited := by simp [hnot']
      registered := by simp [hnot]
      others := by simp [hnot] }
  obtain ⟨rfl, hjobs, hrun⟩ := planDefinitions_spec hplan
  obtain ⟨hempty, haps⟩ := h.fresh hs
  have hnodup : ((definitions.filter (!startsImmediately ·)).map (·.id)).Nodup :=
    hids.sublist (List.filter_sublist.map _)
  have hnocalls : ∀ id, initialCalls s.calls id = 0 := fun id => by
    rw [h.calls id, habsent id, InitialPhase.dispatches]
  have hcount : ∀ id, (s.jobs ++ jobs).countP (fun job => job.id = id) =
      ((definitions.filter (!startsImmediately ·)).map (·.id)).count id := by
    intro id
    rw [hempty, List.nil_append, countP_id_eq_count, hjobs]
  rw [heq]
  exact {
    fresh := by simp; split_ifs <;> simp
    before := by simp; split_ifs <;> simp [StartPhase.ran]
    calls := by
      intro id
      rcases createInitial_cases (definitions.filter (startsImmediately ·)) id with
        ⟨hc, -⟩ | ⟨d, -, -, hc⟩
      · exact (hnocalls id).trans (by simp [hc, InitialPhase.dispatches])
      · exact (hnocalls id).trans (by simp [hc, InitialPhase.dispatches])
    created := by
      intro id d hid
      rcases createInitial_cases (definitions.filter (startsImmediately ·)) id with
        ⟨hc, -⟩ | ⟨e, he, heid, hc⟩
      · simp [hc] at hid
      · obtain rfl : e = d := by simpa [hc] using hid
        have hmem := List.mem_filter.mp he
        exact ⟨hmem.1, hmem.2, heid⟩
    dispatching := by
      intro id d hid
      rcases createInitial_cases (definitions.filter (startsImmediately ·)) id with
        ⟨hc, -⟩ | ⟨e, he, heid, hc⟩
      · simp [hc] at hid
      · simp [hc] at hid
    callback := h.callback
    present := by
      intro _ d hd hi
      simp [createInitial_of_mem hids hd hi]
    awaited := by
      intro hawaited d hd hi
      have hne : definitions.filter (startsImmediately ·) ≠ [] :=
        List.ne_nil_of_mem (List.mem_filter.mpr ⟨hd, hi⟩)
      simp [hne, StartPhase.awaited] at hawaited
    registered := by
      intro _ d hd hi
      have hnot : d.id ∉ (definitions.filter (!startsImmediately ·)).map (·.id) := by
        intro hmem
        obtain ⟨e, he, hid⟩ := List.mem_map.mp hmem
        obtain ⟨he, hne⟩ := List.mem_filter.mp he
        simp [definition_unique hids he hd hid, hi] at hne
      have hzero := (hcount d.id).trans (List.count_eq_zero_of_not_mem hnot)
      refine ⟨by simp [registrations, hzero], ?_⟩
      intro job hjob hid
      have hnone := List.countP_eq_zero.mp hzero job hjob
      simp [hid] at hnone
    others := by
      intro _ d hd hi
      have hmem : d.id ∈ (definitions.filter (!startsImmediately ·)).map (·.id) :=
        List.mem_map.mpr ⟨d, List.mem_filter.mpr ⟨hd, by simp [hi]⟩, rfl⟩
      refine ⟨?_, (hcount d.id).trans (List.count_eq_one_of_mem hnodup hmem), ?_⟩
      · rcases createInitial_cases (definitions.filter (startsImmediately ·)) d.id with
          ⟨hc, -⟩ | ⟨e, he, heid, hc⟩
        · exact hc
        · obtain ⟨he, hei⟩ := List.mem_filter.mp he
          simp [definition_unique hids he hd heid, hi] at hei
      · intro job hjob _
        simp only [hempty, List.nil_append] at hjob
        simp [hrun job hjob, haps] }

theorem PlanInv.initialStarts {s : EngineState J} (hids : (definitions.map (·.id)).Nodup)
    (h : PlanInv definitions s) {d : QueueJobSchedule J} (hd : s.initial d.id = .created d) :
    PlanInv definitions { s with
      initial := Function.update s.initial d.id (.dispatching d)
      calls := s.calls ++ [(.initial d.id, buildCallback d)] } := by
  obtain ⟨hmem, himmediate, -⟩ := h.created d.id d hd
  have hsame : ∀ e ∈ definitions, e.id = d.id → e = d := fun e he hid => definition_unique hids he hmem hid
  exact { h with
    before := by
      intro hran
      simp [h.before hran d.id] at hd
    calls := by
      intro id
      have hid := h.calls id
      simp only [initialCalls, List.countP_append] at hid ⊢
      by_cases hne : id = d.id
      · subst hne
        simp [hid, hd, InitialPhase.dispatches]
      · simp [hid, hne, Ne.symm hne]
    created := by
      intro id e he
      by_cases hne : id = d.id
      · subst hne
        simp at he
      · exact h.created id e (by simpa [hne] using he)
    dispatching := by
      intro id e he
      by_cases hne : id = d.id
      · subst hne
        obtain rfl : d = e := by simpa using he
        exact ⟨hmem, himmediate, rfl⟩
      · exact h.dispatching id e (by simpa [hne] using he)
    callback := by
      intro e he call hcall horigin
      rcases List.mem_append.mp hcall with hcall | hcall
      · exact h.callback e he call hcall horigin
      · obtain rfl := List.mem_singleton.mp hcall
        rw [hsame e he (by simpa using horigin.symm)]
    present := by
      intro hran e he hi
      by_cases hne : e.id = d.id
      · simp [hne]
      · simpa [hne] using h.present hran e he hi
    awaited := by
      intro hawaited
      have hended := h.awaited hawaited d hmem himmediate
      simp [hd, InitialPhase.hasEnded] at hended
    registered := by
      intro hran e he hi
      obtain ⟨hcount, hjobs⟩ := h.registered hran e he hi
      refine ⟨?_, hjobs⟩
      by_cases hne : e.id = d.id
      · rw [hne, hd] at hcount
        simpa [hne, InitialPhase.registrations] using hcount
      · simpa [hne] using hcount
    others := by
      intro hran e he hi
      obtain ⟨habsent, hrest⟩ := h.others hran e he hi
      have hne : e.id ≠ d.id := by
        intro hid
        simp [hid, hd] at habsent
      exact ⟨by simpa [hne] using habsent, hrest⟩ }

-- The end of an initial dispatch, with the jobs its task may have added.
theorem PlanInv.endInitial {s : EngineState J} (h : PlanInv definitions s) {d : QueueJobSchedule J}
    (hd : s.initial d.id = .dispatching d)
    (outcome : DispatchOutcome) (added : List (Registration J)) (hlength : added.length ≤ 1)
    (hadded : ∀ job ∈ added, job.id = d.id ∧ job.dispatched = true ∧ job.closed = false) :
    PlanInv definitions { s with
      initial := Function.update s.initial d.id (.ended outcome)
      jobs := s.jobs ++ added
      finished := s.finished ++ [.initial d.id] } := by
  obtain ⟨hmem, himmediate, -⟩ := h.dispatching d.id d hd
  have hran : s.start.ran = true := by
    by_contra hnot
    simp [h.before (by simpa using hnot) d.id] at hd
  exact {
    fresh := by
      intro hs
      rw [show s.start = .notCalled from hs] at hran
      simp [StartPhase.ran] at hran
    before := by simp [hran]
    calls := by
      intro id
      have hid := h.calls id
      by_cases hne : id = d.id
      · subst hne
        rw [hd] at hid
        simpa [InitialPhase.dispatches] using hid
      · simpa [hne] using hid
    created := by
      intro id e he
      by_cases hne : id = d.id
      · subst hne
        simp at he
      · exact h.created id e (by simpa [hne] using he)
    dispatching := by
      intro id e he
      by_cases hne : id = d.id
      · subst hne
        simp at he
      · exact h.dispatching id e (by simpa [hne] using he)
    callback := h.callback
    present := by
      intro _ e he hi
      by_cases hne : e.id = d.id
      · simp [hne]
      · simpa [hne] using h.present hran e he hi
    awaited := by
      intro hawaited e he hi
      by_cases hne : e.id = d.id
      · simp [hne, InitialPhase.hasEnded]
      · simpa [hne] using h.awaited hawaited e he hi
    registered := by
      intro _ e he hi
      obtain ⟨hcount, hjobs⟩ := h.registered hran e he hi
      by_cases hne : e.id = d.id
      · rw [hne, hd] at hcount
        have hle := List.countP_le_length (p := fun job : Registration J => job.id = e.id) (l := added)
        refine ⟨?_, ?_⟩
        · simp only [registrations, InitialPhase.registrations, List.countP_append,
            hne, Function.update_self] at hcount hle ⊢
          omega
        · intro job hjob hid
          rcases List.mem_append.mp hjob with hjob | hjob
          · exact hjobs job hjob hid
          · exact (hadded job hjob).2
      · have hnone : ∀ job ∈ added, job.id ≠ e.id := by
          intro job hjob hid
          exact hne (hid.symm.trans (hadded job hjob).1)
        refine ⟨?_, ?_⟩
        · have hzero : added.countP (fun job => job.id = e.id) = 0 :=
            List.countP_eq_zero.mpr (by simpa using hnone)
          simpa [registrations, List.countP_append, hzero, hne] using hcount
        · intro job hjob hid
          rcases List.mem_append.mp hjob with hjob | hjob
          · exact hjobs job hjob hid
          · exact absurd hid (hnone job hjob)
    others := by
      intro _ e he hi
      obtain ⟨habsent, hcount, hjobs⟩ := h.others hran e he hi
      have hne : e.id ≠ d.id := by
        intro hid
        simp [hid, hd] at habsent
      have hnone : ∀ job ∈ added, job.id ≠ e.id := by
        intro job hjob hid
        exact hne (hid.symm.trans (hadded job hjob).1)
      have hzero : added.countP (fun job => job.id = e.id) = 0 :=
        List.countP_eq_zero.mpr (by simpa using hnone)
      refine ⟨by simpa [hne] using habsent, ?_, ?_⟩
      · simpa [registrations, List.countP_append, hzero] using hcount
      · intro job hjob hid
        rcases List.mem_append.mp hjob with hjob | hjob
        · exact hjobs job hjob hid
        · exact absurd hid (hnone job hjob) }

theorem PlanInv.finishInitial {s : EngineState J} (h : PlanInv definitions s)
    {d : QueueJobSchedule J} (hd : s.initial d.id = .dispatching d)
    (outcome : DispatchOutcome) (clock : Option Int) (addOk : Bool) :
    PlanInv definitions (finishInitial cronValid s d outcome clock addOk) := by
  have hplain : ∀ outcome, PlanInv definitions { s with
      initial := Function.update s.initial d.id (.ended outcome)
      finished := s.finished ++ [.initial d.id] } := by
    intro outcome
    simpa using h.endInitial hd outcome [] (by simp) (by simp)
  unfold Scheduler.finishInitial
  simp only
  split_ifs with hcancel hclosed
  · exact hplain .cancelled
  · exact hplain .returned
  · split
    · exact hplain .raised
    · rename_i job hjob
      obtain ⟨hid, -, hclosed', hdispatched⟩ := register_spec hjob
      refine h.endInitial hd .returned [job] (by simp) ?_
      intro job' hjob'
      obtain rfl := List.mem_singleton.mp hjob'
      exact ⟨hid, by simp [hdispatched], by simpa [hclosed'] using hclosed⟩

theorem initialCalls_future (calls : List (Origin × DispatchCall J)) (f : Nat) (call : DispatchCall J)
    (id : String) : initialCalls (calls ++ [(.future f, call)]) id = initialCalls calls id := by
  simp [initialCalls]

theorem PlanInv.futureCalls {s : EngineState J} (h : PlanInv definitions s) (f : Nat)
    (call : DispatchCall J) (futures : Nat → FuturePhase J) (finished : List Origin) :
    PlanInv definitions { s with
      futures := futures, calls := s.calls ++ [(.future f, call)], finished := finished } := { h with
  calls := fun id => (initialCalls_future s.calls f call id).trans (h.calls id)
  callback := by
    intro d hd call' hcall horigin
    rcases List.mem_append.mp hcall with hcall | hcall
    · exact h.callback d hd call' hcall horigin
    · obtain rfl := List.mem_singleton.mp hcall
      cases horigin }

-- The end of the wait of `start`.
theorem PlanInv.wake {s : EngineState J} {phase : StartPhase} (h : PlanInv definitions s)
    (hs : s.start = .waiting) (hphase : phase.ran = true)
    (hawaited : phase.awaited = true → ∀ d ∈ definitions, startsImmediately d = true →
      (s.initial d.id).hasEnded = true) :
    PlanInv definitions { s with start := phase } := by
  have hran : s.start.ran = true := by simp [hs, StartPhase.ran]
  exact { h with
    fresh := by
      intro hnot
      rw [show phase = .notCalled from hnot] at hphase
      simp [StartPhase.ran] at hphase
    before := by simp [hphase]
    present := fun _ => h.present hran
    awaited := hawaited
    registered := fun _ => h.registered hran
    others := fun _ => h.others hran }

theorem engineStep_plan (hids : (definitions.map (·.id)).Nodup) (s : EngineState J) (act : EngineAct)
    (t : EngineState J) (h : PlanInv definitions s)
    (hstep : engineStep cronValid definitions s act = some t) : PlanInv definitions t := by
  cases engineMove_of_step hstep with
  | start clock addOk startOk hs => exact h.start hids hs clock addOk startOk
  | initialStarts id d hd =>
      obtain rfl := (h.created id d hd).2.2
      exact h.initialStarts hids hd
  | initialEnds id d outcome clock addOk hd =>
      obtain rfl := (h.dispatching id d hd).2.2
      exact h.finishInitial hd outcome clock addOk
  | startWakes phase hphase hs hended =>
      have hran : phase.ran = true := by
        rcases hphase with rfl | rfl <;> rfl
      exact h.wake hs hran fun _ => hended
  | cancelStart hs => exact h.wake hs rfl (by simp [StartPhase.awaited])
  | discardInitial id hended => exact { h with }
  | fire f job registration hf hjob haps => exact { h with }
  | futureCalls f call hf => exact h.futureCalls f _ _ _
  | futureCallsAgain f call hf => exact h.futureCalls f _ _ _
  | futureMisses f call hf => exact { h with }
  | futureEnds f call hf => exact { h with }
  | discardFuture f hended => exact { h with }
  | aclose pauseOk hclose =>
      have hpaused : s.start = .notCalled → s.jobs = [] ∧ ApsPhase.paused ≠ .running :=
        fun hs => ⟨(h.fresh hs).1, by decide⟩
      unfold acloseEngine drain
      simp only
      split_ifs
      · exact { h with fresh := hpaused }
      · exact { h with fresh := hpaused }
      · exact { h with fresh := hpaused }
      · exact { h with }
      · exact { h with }
  | gatherDone tasks hclose hended =>
      unfold drain
      split_ifs <;> exact { h with }
  | drainDone futures hclose hended =>
      unfold drain
      split_ifs <;> exact { h with }
  | shutdownRuns hclose haps =>
      exact { h with fresh := fun hs => ⟨(h.fresh hs).1, by simp [shutdown]⟩ }
  | acloseWakes hclose haps => exact { h with }

theorem PlanInv.dispatched_once {s : EngineState J} (hi : EngineInv s) (h : PlanInv definitions s)
    (hran : s.start.ran = true) {d : QueueJobSchedule J} (hd : d ∈ definitions)
    (himmediate : startsImmediately d = true)
    (hover : s.start.awaited = true ∨ s.close = .returned) : initialCalls s.calls d.id = 1 := by
  have hended : (s.initial d.id).hasEnded = true := by
    rcases hover with hawaited | hclose
    · exact h.awaited hawaited d hd himmediate
    · have hdead := hi.gathered (by simp [hclose, ClosePhase.gathered]) d.id
      have hpresent := h.present hran d hd himmediate
      cases hphase : s.initial d.id <;> simp_all [InitialPhase.isLive, InitialPhase.hasEnded]
  rw [h.calls d.id]
  cases hphase : s.initial d.id <;> simp_all [InitialPhase.hasEnded, InitialPhase.dispatches]

-- The drain of the engine and the plan of its start, for every run from a fresh engine. The
-- dispatches of the start phase are counted at every moment: a task that has not had its
-- first turn has made none and any other task exactly one, and every task has had its turn
-- when `start` has awaited them or `aclose` has returned.
theorem engine_drain (hids : (definitions.map (·.id)).Nodup) {s : EngineState J}
    (hs : Reaches (engineStep cronValid definitions) {} s) :
    (s.close = .returned →
      s.Quiet ∧ s.cancelled = [] ∧
      ∀ t, Reaches (engineStep cronValid definitions) s t →
        t.Quiet ∧ t.calls = s.calls ∧ t.cancelled = []) ∧
    (s.start.ran = true →
      (∀ d ∈ definitions, startsImmediately d = true →
        ((∃ d', s.initial d.id = .created d') ∧ initialCalls s.calls d.id = 0 ∨
          (∀ d', s.initial d.id ≠ .created d') ∧ initialCalls s.calls d.id = 1) ∧
        (s.start.awaited = true ∨ s.close = .returned → initialCalls s.calls d.id = 1) ∧
        (∀ call ∈ s.calls, call.1 = .initial d.id → call.2 = buildCallback d) ∧
        registrations s.jobs d.id ≤ 1 ∧
        ∀ job ∈ s.jobs, job.id = d.id → job.dispatched = true ∧ job.closed = false) ∧
      ∀ d ∈ definitions, startsImmediately d = false →
        initialCalls s.calls d.id = 0 ∧ registrations s.jobs d.id = 1 ∧
        ∀ job ∈ s.jobs, job.id = d.id → job.running = false) := by
  have hi : EngineInv s := hs.invariant engineStep_inv engineInv_init
  have hp : PlanInv definitions s := hs.invariant (engineStep_plan hids) planInv_init
  refine ⟨?_, ?_⟩
  · intro hclose
    refine ⟨hi.quiet hclose, hi.cancelled, ?_⟩
    intro t hst
    have hi' : EngineInv t := hst.invariant engineStep_inv hi
    obtain ⟨hclose', hcalls⟩ := returned_reaches hi hclose hst
    exact ⟨hi'.quiet hclose', hcalls, hi'.cancelled⟩
  · intro hran
    refine ⟨?_, ?_⟩
    · intro d hd himmediate
      obtain ⟨hcount, hjobs⟩ := hp.registered hran d hd himmediate
      refine ⟨?_, hp.dispatched_once hi hran hd himmediate, hp.callback d hd, ?_, hjobs⟩
      · have hpresent := hp.present hran d hd himmediate
        rw [hp.calls d.id]
        cases hphase : s.initial d.id with
        | absent => exact absurd hphase hpresent
        | created d' => exact .inl ⟨⟨d', rfl⟩, rfl⟩
        | dispatching d' => exact .inr ⟨by simp, rfl⟩
        | ended outcome => exact .inr ⟨by simp, rfl⟩
      · refine Nat.le_trans hcount ?_
        cases s.initial d.id <;> simp [InitialPhase.registrations]
    · intro d hd hother
      obtain ⟨habsent, hcount, hjobs⟩ := hp.others hran d hd hother
      refine ⟨?_, hcount, hjobs⟩
      rw [hp.calls d.id, habsent, InitialPhase.dispatches]

-- A plan whose first dispatch is still running when the engine closes, with a cron job whose
-- future is drained.
def cleanupPlan : List (QueueJobSchedule Nat) :=
  [{ id := "cleanup", trigger := .interval ⟨60, .immediately, by decide⟩, job := 1 },
    { id := "report", trigger := .cron {}, job := 2 }]

theorem engine_drain_cleanupPlan : ∃ s : EngineState Nat,
    Reaches (engineStep (fun _ => true) cleanupPlan) {} s ∧ s.close = .returned ∧
      initialCalls s.calls "cleanup" = 1 ∧ registrations s.jobs "cleanup" = 0 ∧
      ∀ t, Reaches (engineStep (fun _ => true) cleanupPlan) s t → t.calls = s.calls := by
  let acts : List EngineAct :=
    [.start (fun _ => some 0) (fun _ => true) true, .initialStarts "cleanup", .cancelStart, .fire 0 0,
      .aclose true, .futureCalls 0, .initialEnds "cleanup" .returned (some 5) true,
      .discardInitial "cleanup", .gatherDone, .futureEnds 0, .discardFuture 0, .drainDone,
      .shutdownRuns, .acloseWakes]
  refine ⟨_, ⟨acts, rfl⟩, rfl, rfl, rfl, fun t ht => ?_⟩
  exact (((engine_drain (by decide) ⟨acts, rfl⟩).1 rfl).2.2 t ht).2.1

end Scaffold.Scheduler
