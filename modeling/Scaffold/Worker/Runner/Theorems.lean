import Scaffold.Worker.Runner

namespace Scaffold.Worker

open Machine

variable {n : Nat} {D : Type*}

theorem mem_cancels_cancelLanes {s : RunnerState n D} {lanes : List (Fin n)}
    {entry : Fin n × Lane D} (h : entry ∈ (cancelLanes s lanes).cancels) :
    entry ∈ s.cancels ∨
      (entry.1 ∈ lanes ∧ entry.2 = s.lane entry.1 ∧ (s.lane entry.1).hasEnded = false) := by
  simp only [cancelLanes, List.mem_append, List.mem_map, List.mem_filter, Bool.not_eq_eq_eq_not,
    Bool.not_true] at h
  rcases h with h | ⟨i, ⟨hm, he⟩, rfl⟩
  · exact .inl h
  · exact .inr ⟨hm, rfl, he⟩

theorem allEnded_iff (s : RunnerState n D) : s.allEnded = true ↔ ∀ i, (s.lane i).hasEnded = true := by
  simp [RunnerState.allEnded]

def executingLanes (s : RunnerState n D) : Finset (Fin n) :=
  Finset.univ.filter fun i => (s.lane i).isExecuting = true

theorem mem_executingLanes (s : RunnerState n D) (i : Fin n) :
    i ∈ executingLanes s ↔ (s.lane i).isExecuting = true := by
  simp [executingLanes]

structure RunnerInv (s : RunnerState n D) : Prop where
  receivers : ∀ i, i ∈ s.receivers ↔ s.lane i = .receiving
  executed : s.executed = s.received
  running : s.running = (executingLanes s).card
  ended : ∀ outcome, s.phase = .ended outcome → ∀ i, (s.lane i).hasEnded = true
  returned : (s.phase = .ended .returned ∨ ∃ cancelled, s.phase = .finalGather .returned cancelled) →
    ∀ i, (s.lane i).hasEnded = true ∧ ∀ error, (s.lane i).error = some error → error = .cancelled
  unwoken : s.phase = .waiting → s.cancels = [] ∧ s.wokenByStop = false
  drained : s.wokenByStop = true → s.timedOut = false → s.runCancelled = false →
    (∀ entry ∈ s.cancels, entry.2.isExecuting = false) ∧
      (s.phase = .draining ∨ ∀ i, (s.lane i).hasEnded = true)

theorem runnerInv_init : RunnerInv ({} : RunnerState n D) := by
  refine ⟨by simp, rfl, ?_, by simp, by simp, by simp, by simp⟩
  simp [executingLanes, Lane.isExecuting]

def Lane.load (lane : Lane D) : Nat := if lane.isExecuting then 1 else 0

theorem executingLanes_move {s t : RunnerState n D} {i : Fin n}
    (hlane : ∀ j, j ≠ i → t.lane j = s.lane j) :
    (executingLanes t).card + (s.lane i).load = (executingLanes s).card + (t.lane i).load := by
  have hsame : (executingLanes t).erase i = (executingLanes s).erase i := by
    ext j
    by_cases hj : j = i
    · simp [hj]
    · simp [hj, mem_executingLanes, hlane j hj]
  have hcard : ∀ u : RunnerState n D,
      (executingLanes u).card = ((executingLanes u).erase i).card + (u.lane i).load := by
    intro u
    by_cases hu : (u.lane i).isExecuting = true
    · have := Finset.card_erase_add_one ((mem_executingLanes u i).mpr hu)
      simp only [Lane.load, hu, if_true]
      omega
    · have : (executingLanes u).erase i = executingLanes u :=
        Finset.erase_eq_of_notMem (fun hm => hu ((mem_executingLanes u i).mp hm))
      simp [Lane.load, hu, this]
  have hs := hcard s
  have ht := hcard t
  rw [hsame] at ht
  omega

theorem executing_pos {s : RunnerState n D} (hs : RunnerInv s) {i : Fin n} {d : D}
    (hl : s.lane i = .executing d) : 0 < s.running := by
  rw [hs.running]
  exact Finset.card_pos.mpr ⟨i, (mem_executingLanes s i).mpr (by rw [hl]; rfl)⟩

-- What a step of lane `i` leaves alone.
structure LaneStep (s t : RunnerState n D) (i : Fin n) : Prop where
  live : (s.lane i).hasEnded = false
  lane : ∀ j, j ≠ i → t.lane j = s.lane j
  phase : t.phase = s.phase
  cancels : t.cancels = s.cancels
  wokenByStop : t.wokenByStop = s.wokenByStop
  timedOut : t.timedOut = s.timedOut
  runCancelled : t.runCancelled = s.runCancelled
  others : ∀ j, j ≠ i → (j ∈ t.receivers ↔ j ∈ s.receivers)

-- While some lane has not ended, `run` has not ended and has not seen all its results.
theorem LaneStep.inv {s t : RunnerState n D} {i : Fin n} (h : LaneStep s t i) (hs : RunnerInv s)
    (hreceiver : i ∈ t.receivers ↔ t.lane i = .receiving) (hexecuted : t.executed = t.received)
    (hrunning : t.running + (s.lane i).load = s.running + (t.lane i).load) : RunnerInv t := by
  have hlive : ¬ ∀ j, (s.lane j).hasEnded = true := by
    intro hall
    have hi := hall i
    rw [h.live] at hi
    cases hi
  refine ⟨fun j => ?_, hexecuted, ?_, fun outcome hp => ?_, fun hp => ?_, fun hp => ?_,
    fun hw ht hc => ?_⟩
  · by_cases hj : j = i
    · subst hj; exact hreceiver
    · rw [h.others j hj, h.lane j hj]; exact hs.receivers j
  · have hcard := executingLanes_move h.lane
    have hrun := hs.running
    omega
  · exact absurd (hs.ended outcome (h.phase ▸ hp)) hlive
  · rw [h.phase] at hp
    exact absurd (fun j => (hs.returned hp j).1) hlive
  · rw [h.cancels, h.wokenByStop]
    exact hs.unwoken (h.phase ▸ hp)
  · rw [h.wokenByStop] at hw
    rw [h.timedOut] at ht
    rw [h.runCancelled] at hc
    obtain ⟨hentries, hphase⟩ := hs.drained hw ht hc
    rw [h.cancels, h.phase]
    exact ⟨hentries, .inl (hphase.resolve_right hlive)⟩

-- A step of `run` moves no lane.
structure RunStep (s t : RunnerState n D) : Prop where
  lane : t.lane = s.lane
  receivers : t.receivers = s.receivers
  received : t.received = s.received
  executed : t.executed = s.executed
  running : t.running = s.running

theorem RunStep.inv {s t : RunnerState n D} (hs : RunnerInv s) (h : RunStep s t)
    (hended : ∀ outcome, t.phase = .ended outcome → ∀ i, (s.lane i).hasEnded = true)
    (hreturned : (t.phase = .ended .returned ∨ ∃ cancelled, t.phase = .finalGather .returned cancelled) →
      ∀ i, (s.lane i).hasEnded = true ∧ ∀ error, (s.lane i).error = some error → error = .cancelled)
    (hunwoken : t.phase = .waiting → t.cancels = [] ∧ t.wokenByStop = false)
    (hdrained : t.wokenByStop = true → t.timedOut = false → t.runCancelled = false →
      (∀ entry ∈ t.cancels, entry.2.isExecuting = false) ∧
        (t.phase = .draining ∨ ∀ i, (s.lane i).hasEnded = true)) : RunnerInv t := by
  have he : executingLanes t = executingLanes s := by simp [executingLanes, h.lane]
  refine ⟨?_, ?_, ?_, ?_, ?_, hunwoken, ?_⟩
  · rw [h.lane, h.receivers]; exact hs.receivers
  · rw [h.executed, h.received]; exact hs.executed
  · rw [h.running, he]; exact hs.running
  · rw [h.lane]; exact hended
  · rw [h.lane]; exact hreturned
  · rw [h.lane]; exact hdrained

-- The loop head, reached from a lane that was not receiving and is no longer executing.
theorem nextReceive_inv {s : RunnerState n D} {i : Fin n} (hs : RunnerInv s)
    (hlive : (s.lane i).hasEnded = false) (hne : s.lane i ≠ .receiving) (running : Nat)
    (hrunning : running + (s.lane i).load = s.running) :
    RunnerInv (nextReceive { s with running := running } i) := by
  have hnot : i ∉ s.receivers := fun hm => hne ((hs.receivers i).mp hm)
  unfold nextReceive
  split_ifs
  · refine LaneStep.inv (i := i) ⟨hlive, fun j hj => by simp [setLane, hj], rfl, rfl, rfl, rfl, rfl,
      fun j _ => Iff.rfl⟩ hs ?_ hs.executed ?_
    · simpa [setLane] using hnot
    · simpa [setLane, Lane.load, Lane.isExecuting] using hrunning
  · refine LaneStep.inv (i := i) ⟨hlive, fun j hj => by simp [setLane, hj], rfl, rfl, rfl, rfl, rfl,
      fun j hj => by simp [hj]⟩ hs ?_ hs.executed ?_
    · simp [setLane]
    · simpa [setLane, Lane.load, Lane.isExecuting] using hrunning

-- The handler of a lane, whatever it was awaiting.
theorem raiseLane_inv {s : RunnerState n D} {i : Fin n} (hs : RunnerInv s)
    (hlive : (s.lane i).hasEnded = false) (error : LaneError) (receivers : Finset (Fin n))
    (hmem : i ∉ receivers) (hothers : ∀ j, j ≠ i → (j ∈ receivers ↔ j ∈ s.receivers)) (running : Nat)
    (hrunning : running + (s.lane i).load = s.running) :
    RunnerInv (raiseLane { s with receivers := receivers, running := running } i error) := by
  refine LaneStep.inv (i := i) ⟨hlive, fun j hj => by simp [raiseLane, setLane, hj], rfl, rfl, rfl,
    rfl, rfl, hothers⟩ hs ?_ hs.executed ?_
  · simpa [raiseLane, setLane] using hmem
  · simpa [raiseLane, setLane, Lane.load, Lane.isExecuting] using hrunning

-- The finally block cancels nothing but lanes that are still there.
theorem enterFinally_inv {s : RunnerState n D} {outcome : RunEnd} (hs : RunnerInv s)
    (hreturned : outcome = .returned → ∀ i, (s.lane i).hasEnded = true ∧
      ∀ error, (s.lane i).error = some error → error = .cancelled)
    (hphase : s.wokenByStop = true → s.timedOut = false → s.runCancelled = false →
      s.phase ≠ .draining) : RunnerInv (enterFinally s outcome) := by
  refine RunStep.inv hs ⟨rfl, rfl, rfl, rfl, rfl⟩ (by simp [enterFinally]) ?_ (by simp [enterFinally]) ?_
  · rintro (h | ⟨cancelled, h⟩)
    · simp [enterFinally] at h
    · simp only [enterFinally, RunPhase.finalGather.injEq] at h
      exact hreturned h.1
  · intro hw ht hc
    obtain ⟨hentries, hdrained⟩ := hs.drained hw ht hc
    have hall := hdrained.resolve_left (hphase hw ht hc)
    refine ⟨fun entry hm => ?_, .inr hall⟩
    rcases mem_cancels_cancelLanes hm with hm | ⟨_, _, hlive⟩
    · exact hentries entry hm
    · rw [hall entry.1] at hlive
      cases hlive

theorem laneErrors_nil {s : RunnerState n D} (h : laneErrors s = []) (i : Fin n) (error : LaneError)
    (he : (s.lane i).error = some error) : error = .cancelled := by
  by_contra hne
  have hm : error ∈ laneErrors s := by
    simp only [laneErrors, List.mem_filter, List.mem_filterMap, List.mem_finRange, true_and,
      decide_eq_true_eq]
    exact ⟨⟨i, he⟩, hne⟩
  rw [h] at hm
  cases hm

-- The steps of the runner, each with what it requires.
inductive RunnerMove (s : RunnerState n D) : RunnerAct n D → RunnerState n D → Prop
  | setStop : RunnerMove s .setStop { s with stop := true }
  | stoppedEnds (hwoken : (s.stop || s.phase matches .finalGather _ _) = true) :
    RunnerMove s .stoppedEnds { s with stopped := true }
  | startCancelled (i : Fin n) (hlane : s.lane i = .created) (hearly : s.cancelledEarly i = true) :
    RunnerMove s (.startLane i) (setLane s i (.ended (.failed .cancelled)))
  | startLane (i : Fin n) (hlane : s.lane i = .created) (hearly : ¬ s.cancelledEarly i = true) :
    RunnerMove s (.startLane i) (nextReceive s i)
  | receiveReturns (i : Fin n) (d : D) (hlane : s.lane i = .receiving) :
    RunnerMove s (.receiveReturns i d) { setLane s i (.executing d) with
      receivers := s.receivers.erase i
      received := s.received ++ [(i, d)]
      executed := s.executed ++ [(i, d)]
      running := s.running + 1 }
  | receiveRaises (i : Fin n) (error : LaneError) (hlane : s.lane i = .receiving) :
    RunnerMove s (.receiveRaises i error) (raiseLane { s with receivers := s.receivers.erase i } i error)
  | executeReturns (i : Fin n) {d : D} (hlane : s.lane i = .executing d) :
    RunnerMove s (.executeReturns i) (nextReceive { s with running := s.running - 1 } i)
  | executeRaises (i : Fin n) (error : LaneError) {d : D} (hlane : s.lane i = .executing d) :
    RunnerMove s (.executeRaises i error) (raiseLane { s with running := s.running - 1 } i error)
  | wakeStop (hphase : s.phase = .waiting)
      (hdone : s.stopped = true ∨ ∃ i, s.lane i matches .ended .returned)
      (herrors : ∀ i, (s.lane i).error = none) :
    RunnerMove s .wakeStop
      { cancelLanes { s with closing := true } ((List.finRange n).filter (· ∈ s.receivers)) with
        phase := .draining, wokenByStop := true }
  | wakeFailed (i : Fin n) (error : LaneError) (hphase : s.phase = .waiting)
      (hlane : (s.lane i).error = some error) :
    RunnerMove s (.wakeFailed i) (enterFinally s (.failed error))
  | drainDone (hphase : s.phase = .draining) (hall : s.allEnded = true) :
    RunnerMove s .drainDone { s with phase := .gathering false }
  | drainTimeout (hphase : s.phase = .draining) :
    RunnerMove s .drainTimeout
      { cancelLanes { s with timedOut := true } (List.finRange n) with phase := .gathering false }
  | gatherDone {cancelled : Bool} (outcome : RunEnd) (hphase : s.phase = .gathering cancelled)
      (hall : s.allEnded = true) (hreturned : outcome = .returned → laneErrors s = []) :
    RunnerMove s .gatherDone (enterFinally s outcome)
  | finalDone {cancelled : Bool} {outcome : RunEnd} (hphase : s.phase = .finalGather outcome cancelled)
      (hall : s.allEnded = true) (hstopped : s.stopped = true) :
    RunnerMove s .finalDone { s with phase := .ended (if cancelled then .failed .cancelled else outcome) }
  | cancelWait (hphase : s.phase = .waiting ∨ s.phase = .draining) :
    RunnerMove s .cancelRun (enterFinally { s with runCancelled := true } (.failed .cancelled))
  | cancelGather {cancelled : Bool} (hphase : s.phase = .gathering cancelled) :
    RunnerMove s .cancelRun { cancelLanes { s with runCancelled := true } (List.finRange n) with
      phase := .gathering true }
  | cancelFinal {cancelled : Bool} {outcome : RunEnd} (hphase : s.phase = .finalGather outcome cancelled) :
    RunnerMove s .cancelRun { cancelLanes { s with runCancelled := true } (List.finRange n) with
      phase := .finalGather outcome true }

theorem runnerMove_of_step {s t : RunnerState n D} {act : RunnerAct n D} (h : runnerStep s act = some t) :
    RunnerMove s act t := by
  cases act with
  | setStop =>
      obtain rfl := Option.some.inj h
      exact .setStop
  | stoppedEnds =>
      simp only [runnerStep] at h
      split_ifs at h with hwoken
      obtain rfl := Option.some.inj h
      exact .stoppedEnds hwoken
  | startLane i =>
      simp only [runnerStep] at h
      split at h
      · rename_i hlane
        split_ifs at h with hearly
        · obtain rfl := Option.some.inj h
          exact .startCancelled i hlane hearly
        · obtain rfl := Option.some.inj h
          exact .startLane i hlane hearly
      · cases h
  | receiveReturns i d =>
      simp only [runnerStep] at h
      split at h
      · rename_i hlane
        obtain rfl := Option.some.inj h
        exact .receiveReturns i d hlane
      · cases h
  | receiveRaises i error =>
      simp only [runnerStep] at h
      split at h
      · rename_i hlane
        obtain rfl := Option.some.inj h
        exact .receiveRaises i error hlane
      · cases h
  | executeReturns i =>
      simp only [runnerStep] at h
      split at h
      · rename_i d hlane
        obtain rfl := Option.some.inj h
        exact .executeReturns i hlane
      · cases h
  | executeRaises i error =>
      simp only [runnerStep] at h
      split at h
      · rename_i d hlane
        obtain rfl := Option.some.inj h
        exact .executeRaises i error hlane
      · cases h
  | wakeStop =>
      simp only [runnerStep] at h
      split_ifs at h with hwake
      obtain rfl := Option.some.inj h
      exact .wakeStop hwake.1 hwake.2.1 hwake.2.2
  | wakeFailed i =>
      simp only [runnerStep] at h
      split_ifs at h with hphase
      obtain ⟨error, hlane, rfl⟩ := Option.map_eq_some_iff.mp h
      exact .wakeFailed i error hphase hlane
  | drainDone =>
      simp only [runnerStep] at h
      split_ifs at h with hdrain
      obtain rfl := Option.some.inj h
      exact .drainDone hdrain.1 hdrain.2
  | drainTimeout =>
      simp only [runnerStep] at h
      split_ifs at h with hphase
      obtain rfl := Option.some.inj h
      exact .drainTimeout hphase
  | gatherDone =>
      simp only [runnerStep] at h
      split at h
      · rename_i cancelled hphase
        split_ifs at h with hall _ herrors
        · obtain rfl := Option.some.inj h
          exact .gatherDone _ hphase hall (by simp)
        · obtain rfl := Option.some.inj h
          exact .gatherDone _ hphase hall fun _ => herrors
        · obtain rfl := Option.some.inj h
          exact .gatherDone _ hphase hall (by simp)
      · cases h
  | finalDone =>
      simp only [runnerStep] at h
      split at h
      · rename_i outcome cancelled hphase
        by_cases hall : (s.allEnded && s.stopped) = true
        · rw [if_pos hall] at h
          obtain rfl := Option.some.inj h
          rw [Bool.and_eq_true] at hall
          exact .finalDone hphase hall.1 hall.2
        · rw [if_neg hall] at h
          cases h
      · cases h
  | cancelRun =>
      simp only [runnerStep] at h
      split at h
      · rename_i hphase
        obtain rfl := Option.some.inj h
        exact .cancelWait (.inl hphase)
      · rename_i hphase
        obtain rfl := Option.some.inj h
        exact .cancelWait (.inr hphase)
      · rename_i cancelled hphase
        obtain rfl := Option.some.inj h
        exact .cancelGather hphase
      · rename_i outcome cancelled hphase
        obtain rfl := Option.some.inj h
        exact .cancelFinal hphase
      · cases h

theorem runnerStep_inv (s : RunnerState n D) (act : RunnerAct n D) (t : RunnerState n D)
    (hs : RunnerInv s) (h : runnerStep s act = some t) : RunnerInv t := by
  have hs' : RunnerInv { s with runCancelled := true } :=
    RunStep.inv hs ⟨rfl, rfl, rfl, rfl, rfl⟩ hs.ended hs.returned hs.unwoken (by simp)
  cases runnerMove_of_step h with
  | setStop =>
      exact RunStep.inv hs ⟨rfl, rfl, rfl, rfl, rfl⟩ hs.ended hs.returned hs.unwoken hs.drained
  | stoppedEnds hwoken =>
      exact RunStep.inv hs ⟨rfl, rfl, rfl, rfl, rfl⟩ hs.ended hs.returned hs.unwoken hs.drained
  | startCancelled i hlane hearly =>
      have hlive : (s.lane i).hasEnded = false := by rw [hlane]; rfl
      refine LaneStep.inv (i := i) ⟨hlive, fun j hj => by simp [setLane, hj], rfl, rfl, rfl, rfl,
        rfl, fun j _ => Iff.rfl⟩ hs ?_ hs.executed ?_
      · simp [setLane, hs.receivers i, hlane]
      · simp [setLane, Lane.load, Lane.isExecuting, hlane]
  | startLane i hlane hearly =>
      exact nextReceive_inv hs (by rw [hlane]; rfl) (by rw [hlane]; simp) s.running
        (by simp [hlane, Lane.load, Lane.isExecuting])
  | receiveReturns i d hlane =>
      have hlive : (s.lane i).hasEnded = false := by rw [hlane]; rfl
      refine LaneStep.inv (i := i) ⟨hlive, fun j hj => by simp [setLane, hj], rfl, rfl, rfl, rfl, rfl,
        fun j hj => by simp [hj]⟩ hs ?_ ?_ ?_
      · simp [setLane]
      · simp [hs.executed]
      · simp [setLane, Lane.load, Lane.isExecuting, hlane]
  | receiveRaises i error hlane =>
      exact raiseLane_inv hs (by rw [hlane]; rfl) error _ (by simp) (fun j hj => by simp [hj]) s.running
        (by simp [hlane, Lane.load, Lane.isExecuting])
  | executeReturns i hlane =>
      have hload : (s.lane i).load = 1 := by simp [hlane, Lane.load, Lane.isExecuting]
      have hpos := executing_pos hs hlane
      exact nextReceive_inv hs (by rw [hlane]; rfl) (by rw [hlane]; simp) _ (by omega)
  | executeRaises i error hlane =>
      have hload : (s.lane i).load = 1 := by simp [hlane, Lane.load, Lane.isExecuting]
      have hpos := executing_pos hs hlane
      exact raiseLane_inv hs (by rw [hlane]; rfl) error s.receivers
        (by simp [hs.receivers i, hlane]) (fun j _ => Iff.rfl) _ (by omega)
  | wakeStop hphase hdone herrors =>
      obtain ⟨hnil, _⟩ := hs.unwoken hphase
      refine RunStep.inv hs ⟨rfl, rfl, rfl, rfl, rfl⟩ (by simp) (by simp) (by simp) fun _ _ _ =>
        ⟨fun entry hm => ?_, .inl rfl⟩
      -- the cancelled lanes are the receivers, and a receiver is not executing
      rcases mem_cancels_cancelLanes hm with hm | ⟨hm, he, _⟩
      · simp [hnil] at hm
      · simp only [List.mem_filter, List.mem_finRange, decide_eq_true_eq, true_and] at hm
        rw [he, (hs.receivers entry.1).mp hm]
        rfl
  | wakeFailed i error hphase hlane =>
      exact enterFinally_inv hs (by simp) (fun hw => by simp [(hs.unwoken hphase).2] at hw)
  | drainDone hphase hall =>
      exact RunStep.inv hs ⟨rfl, rfl, rfl, rfl, rfl⟩ (by simp) (by simp) (by simp)
        fun hw ht hc => ⟨(hs.drained hw ht hc).1, .inr ((allEnded_iff s).mp hall)⟩
  | drainTimeout hphase =>
      exact RunStep.inv hs ⟨rfl, rfl, rfl, rfl, rfl⟩ (by simp) (by simp) (by simp)
        fun _ ht _ => by simp [cancelLanes] at ht
  | gatherDone outcome hphase hall hreturned =>
      have hdrain : s.phase ≠ .draining := by rw [hphase]; simp
      refine enterFinally_inv hs (fun houtcome i => ?_) fun _ _ _ => hdrain
      exact ⟨(allEnded_iff s).mp hall i, laneErrors_nil (hreturned houtcome) i⟩
  | @finalDone cancelled outcome hphase hall hstopped =>
      have hended := (allEnded_iff s).mp hall
      refine RunStep.inv hs ⟨rfl, rfl, rfl, rfl, rfl⟩ (fun _ _ => hended) (fun hr => ?_) (by simp)
        fun hw ht hc => ⟨(hs.drained hw ht hc).1, .inr hended⟩
      have hout : outcome = .returned := by
        cases cancelled with
        | true => simp at hr
        | false => simpa using hr
      exact hs.returned (.inr ⟨cancelled, hout ▸ hphase⟩)
  | cancelWait hphase => exact enterFinally_inv hs' (by simp) (by simp)
  | cancelGather hphase =>
      exact RunStep.inv hs' ⟨rfl, rfl, rfl, rfl, rfl⟩ (by simp) (by simp) (by simp)
        (by simp [cancelLanes])
  | cancelFinal hphase =>
      refine RunStep.inv hs' ⟨rfl, rfl, rfl, rfl, rfl⟩ (by simp) ?_ (by simp) (by simp [cancelLanes])
      intro hr
      simp only [reduceCtorEq, RunPhase.finalGather.injEq, exists_and_left, exists_eq', and_true,
        false_or] at hr
      subst hr
      exact hs.returned (.inr ⟨_, hphase⟩)

theorem runnerInv_of_reaches {s : RunnerState n D} (h : Reaches runnerStep {} s) : RunnerInv s :=
  h.invariant runnerStep_inv runnerInv_init

-- A lane that has ended stays as it is, and once `run` has ended nothing is called any more.
structure RunnerLater (s t : RunnerState n D) : Prop where
  lane : ∀ i, (s.lane i).hasEnded = true → t.lane i = s.lane i
  ended : ∀ outcome, s.phase = .ended outcome →
    t.phase = s.phase ∧ t.receives = s.receives ∧ t.executed = s.executed

theorem RunnerLater.refl (s : RunnerState n D) : RunnerLater s s :=
  ⟨fun _ _ => rfl, fun _ _ => ⟨rfl, rfl, rfl⟩⟩

theorem RunnerLater.trans (s t u : RunnerState n D) (hst : RunnerLater s t)
    (htu : RunnerLater t u) : RunnerLater s u := by
  refine ⟨fun i hi => ?_, fun outcome ho => ?_⟩
  · have ht := hst.lane i hi
    rw [htu.lane i (ht ▸ hi), ht]
  · obtain ⟨hp, hr, he⟩ := hst.ended outcome ho
    obtain ⟨hp', hr', he'⟩ := htu.ended outcome (hp.trans ho)
    exact ⟨hp'.trans hp, hr'.trans hr, he'.trans he⟩

-- A lane that can move shows that `run` has not ended.
theorem later_of_lane {s t : RunnerState n D} {i : Fin n} (hs : RunnerInv s)
    (hlive : (s.lane i).hasEnded = false) (hlane : ∀ j, j ≠ i → t.lane j = s.lane j) :
    RunnerLater s t := by
  refine ⟨fun j hj => hlane j ?_, fun outcome ho => ?_⟩
  · rintro rfl
    rw [hlive] at hj
    cases hj
  · have hall := hs.ended outcome ho i
    rw [hlive] at hall
    cases hall

theorem later_of_run {s t : RunnerState n D} (hlane : t.lane = s.lane)
    (hphase : ∀ outcome, s.phase ≠ .ended outcome) : RunnerLater s t :=
  ⟨fun i _ => by rw [hlane], fun outcome ho => absurd ho (hphase outcome)⟩

theorem nextReceive_lane (s : RunnerState n D) {i j : Fin n} (hj : j ≠ i) :
    (nextReceive s i).lane j = s.lane j := by
  unfold nextReceive
  split_ifs <;> simp [setLane, hj]

theorem runnerStep_later (s : RunnerState n D) (act : RunnerAct n D) (t : RunnerState n D)
    (hs : RunnerInv s) (h : runnerStep s act = some t) : RunnerLater s t := by
  cases runnerMove_of_step h with
  | setStop => exact ⟨fun _ _ => rfl, fun _ _ => ⟨rfl, rfl, rfl⟩⟩
  | stoppedEnds hwoken => exact ⟨fun _ _ => rfl, fun _ _ => ⟨rfl, rfl, rfl⟩⟩
  | startCancelled i hlane hearly =>
      exact later_of_lane hs (by rw [hlane]; rfl) fun j hj => by simp [setLane, hj]
  | startLane i hlane hearly =>
      exact later_of_lane hs (by rw [hlane]; rfl) fun j hj => nextReceive_lane s hj
  | receiveReturns i d hlane =>
      exact later_of_lane hs (by rw [hlane]; rfl) fun j hj => by simp [setLane, hj]
  | receiveRaises i error hlane =>
      exact later_of_lane hs (by rw [hlane]; rfl) fun j hj => by simp [raiseLane, setLane, hj]
  | executeReturns i hlane =>
      exact later_of_lane hs (by rw [hlane]; rfl) fun j hj => nextReceive_lane _ hj
  | executeRaises i error hlane =>
      exact later_of_lane hs (by rw [hlane]; rfl) fun j hj => by simp [raiseLane, setLane, hj]
  | wakeStop hphase hdone herrors => exact later_of_run rfl (by simp [hphase])
  | wakeFailed i error hphase hlane => exact later_of_run rfl (by simp [hphase])
  | drainDone hphase hall => exact later_of_run rfl (by simp [hphase])
  | drainTimeout hphase => exact later_of_run rfl (by simp [hphase])
  | gatherDone outcome hphase hall hreturned => exact later_of_run rfl (by simp [hphase])
  | finalDone hphase hall hstopped => exact later_of_run rfl (by simp [hphase])
  | cancelWait hphase => exact later_of_run rfl (by rcases hphase with hphase | hphase <;> simp [hphase])
  | cancelGather hphase => exact later_of_run rfl (by simp [hphase])
  | cancelFinal hphase => exact later_of_run rfl (by simp [hphase])

theorem later_of_runnerReaches {s t : RunnerState n D} (hs : RunnerInv s)
    (h : Reaches runnerStep s t) : RunnerLater s t :=
  h.relation runnerStep_inv hs RunnerLater.refl RunnerLater.trans runnerStep_later

-- A cancellation that no one but a driver asked for is a lost delivery.
theorem raiseLane_cancelled {s : RunnerState n D} {i : Fin n} (hc : s.closing = false) :
    (raiseLane s i .cancelled).lane i = .ended (.failed .deliveryLost) := by
  simp [raiseLane, setLane, hc]

theorem runner_drain {s : RunnerState n D} (h : Reaches runnerStep {} s) :
    -- at most `n` deliveries are being executed
    s.running ≤ n ∧
    -- what `receive` returned to a lane is what that lane passed to `execute`, in this order
    s.executed = s.received ∧
    -- a runner woken by stop cancels no executing lane before the timeout
    (s.wokenByStop = true → s.timedOut = false → s.runCancelled = false →
      ∀ entry ∈ s.cancels, entry.2.isExecuting = false) ∧
    -- when `run` has ended, every lane has, and nothing is called afterwards
    (∀ outcome, s.phase = .ended outcome → (∀ i, (s.lane i).hasEnded = true) ∧
      ∀ t, Reaches runnerStep s t → t.phase = s.phase ∧ t.receives = s.receives ∧ t.executed = s.executed) ∧
    -- a normal end means that no lane failed otherwise than by cancellation
    (s.phase = .ended .returned → ∀ i error, (s.lane i).error = some error → error = .cancelled) ∧
    -- a cancellation that propagates before the closing phase is a lost delivery, and `run` raises
    (s.closing = false → ∀ i t, (runnerStep s (.executeRaises i .cancelled) = some t ∨
        runnerStep s (.receiveRaises i .cancelled) = some t) →
      t.lane i = .ended (.failed .deliveryLost) ∧
        ∀ u, Reaches runnerStep t u → u.phase ≠ .ended .returned) := by
  have hi := runnerInv_of_reaches h
  refine ⟨?_, hi.executed, fun hw ht hc => (hi.drained hw ht hc).1, fun outcome ho => ?_,
    fun hr i => (hi.returned (.inl hr) i).2, fun hc i t ht => ?_⟩
  · rw [hi.running]
    simpa using Finset.card_le_univ (executingLanes s)
  · exact ⟨hi.ended outcome ho, fun t ht => (later_of_runnerReaches hi ht).ended outcome ho⟩
  · have hlost : t.lane i = .ended (.failed .deliveryLost) := by
      rcases ht with ht | ht
      · cases runnerMove_of_step ht
        exact raiseLane_cancelled hc
      · cases runnerMove_of_step ht
        exact raiseLane_cancelled hc
    have hit : RunnerInv t := by
      rcases ht with ht | ht <;> exact runnerStep_inv _ _ _ hi ht
    refine ⟨hlost, fun u hu hr => ?_⟩
    have hlane := (later_of_runnerReaches hit hu).lane i (by rw [hlost]; rfl)
    have hiu : RunnerInv u := hu.invariant runnerStep_inv hit
    have herror := (hiu.returned (.inl hr) i).2 .deliveryLost (by rw [hlane, hlost]; rfl)
    cases herror

-- Two lanes: one drains its delivery after stop, the other is cancelled in `receive`.
theorem runner_drain_two_lanes : ∃ s : RunnerState 2 Nat,
    Reaches runnerStep {} s ∧ s.phase = .ended .returned ∧ s.executed = [(0, 7)] ∧
      ∀ t, Reaches runnerStep s t → t.executed = [(0, 7)] := by
  let acts : List (RunnerAct 2 Nat) :=
    [.startLane 0, .startLane 1, .receiveReturns 0 7, .setStop, .stoppedEnds, .wakeStop,
      .receiveRaises 1 .cancelled, .executeReturns 0, .drainDone, .gatherDone, .finalDone]
  refine ⟨_, ⟨acts, rfl⟩, rfl, rfl, fun t ht => ?_⟩
  exact (((runner_drain ⟨acts, rfl⟩).2.2.2.1 .returned rfl).2 t ht).2.2

end Scaffold.Worker
