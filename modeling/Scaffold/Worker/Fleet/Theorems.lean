import Scaffold.Worker.Executor.Identity
import Scaffold.Worker.Fleet.Drivers
import Scaffold.Worker.Fleet.Executions

namespace Scaffold.Worker

open Machine
open Queue (Uuid FailedJobRecord MessageEnvelope)

variable {K S A D F I T : Type} [DecidableEq I] [DecidableEq T] {driver : Driver K S A T}
  {config : ExecutorConfig D} {home : Nat → I} {ok : S → A → Prop} {good : S → Prop}
  {called : S → Nat → Prop}
  {f g : Fleet S D F I T}

section Invariant

-- Where a row of the table comes from.
def Known (config : ExecutorConfig D) (f : Fleet S D F I T) (record : FailedJobRecord D F) : Prop :=
  (∃ index, (index, record) ∈ f.saved) ∨ ∃ name ∈ f.foreign, record.failureId = config.uuid5 name

structure FleetInv (driver : Driver K S A T) (config : ExecutorConfig D) (good : S → Prop)
    (called : S → Nat → Prop) (f : Fleet S D F I T) : Prop where
  queue : good f.queue
  exec : ExecInv config f.executions
  work : ∀ index w, (f.executions.loc index).phase.work = some w →
    ∃ x, (driver.handed f.queue)[index]? = some x ∧ w = received config x.delivery
  idle : ∀ index, (f.executions.loc index).phase = .idle → f.executions.loc index = {}
  called : ∀ index, called f.queue index → (f.executions.loc index).acknowledges ≠ 0
  attempts : ∀ index, AttemptOk (f.executions.loc index)
  seen : ∀ index record, (f.executions.loc index).seen = some record →
    ∃ w, (f.executions.loc index).phase.work = some w ∧ record.failureId = failureId config w ∧
      Known config f record
  rows : ∀ id record, f.executions.shared.records id = some record → Known config f record
  saved : ∀ index record, (index, record) ∈ f.saved → ∃ x, (driver.handed f.queue)[index]? = some x ∧
    record.failureId = failureId config (received config x.delivery)
  foreign : ∀ name ∈ f.foreign, ∃ connection queue id,
    name = failureText config.printable connection queue id ∧
      ¬ (connection = config.connection ∧ queue = config.queue)

omit [DecidableEq I] [DecidableEq T] in
theorem fleetInv_init {s : S} (hgood : good s) (hcalled : ∀ index, ¬ called s index) :
    FleetInv driver config good called (.init s : Fleet S D F I T) where
  queue := hgood
  exec := execInv_init
  work _ _ := nofun
  idle _ _ := rfl
  called index h := absurd h (hcalled index)
  attempts _ _ := ⟨rfl, rfl⟩
  seen _ _ := nofun
  rows _ _ := nofun
  saved _ _ := nofun
  foreign _ := nofun

omit [DecidableEq I] [DecidableEq T] in
theorem Known.grows {record : FailedJobRecord D F} (h : Known config f record) (hsaved : f.saved ⊆ g.saved)
    (hforeign : f.foreign ⊆ g.foreign) : Known config g record :=
  h.imp (fun ⟨index, hindex⟩ => ⟨index, hsaved hindex⟩) fun ⟨name, hname, hid⟩ =>
    ⟨name, hforeign hname, hid⟩

-- A step of the queue keeps its deliveries.
omit [DecidableEq I] [DecidableEq T] in
theorem FleetInv.requeued (hi : FleetInv driver config good called f) {s : S} (hgood : good s)
    (hgrows : ∀ (index : Nat) x, (driver.handed f.queue)[index]? = some x →
      (driver.handed s)[index]? = some x)
    (hcalled : ∀ index, called s index → (f.executions.loc index).acknowledges ≠ 0)
    (calls : List (Nat × T)) :
    FleetInv driver config good called { f with queue := s, calls := calls } := by
  refine ⟨hgood, hi.exec, ?_, hi.idle, hcalled, hi.attempts, hi.seen, hi.rows, ?_, hi.foreign⟩
  · intro index w hw
    obtain ⟨x, hx, hrest⟩ := hi.work index w hw
    exact ⟨x, hgrows index x hx, hrest⟩
  · intro index record hrecord
    obtain ⟨x, hx, hrest⟩ := hi.saved index record hrecord
    exact ⟨x, hgrows index x hx, hrest⟩

end Invariant

section Execute

variable {index : Nat} {act : ExecAct D F} {call : T} {s : FailureStore D F I Nat} {l : Execution D F}

-- What a step of an execution does to the fleet.
structure Executed (driver : Driver K S A T) (config : ExecutorConfig D) (home : Nat → I)
    (f : Fleet S D F I T)
    (index : Nat) (act : ExecAct D F) (call : T) (s : FailureStore D F I Nat) (l : Execution D F)
    (g : Fleet S D F I T) : Prop where
  step : execStep config home index f.executions.shared (f.executions.loc index) act = some (s, l)
  executions : g.executions = f.executions.move index s l
  saved : g.saved = f.saved ++
    ((addedRow (f.executions.loc index) f.executions.shared s).map fun record => (index, record)).toList
  foreign : g.foreign = f.foreign
  queue : (g.queue = f.queue ∧ l.acknowledges = (f.executions.loc index).acknowledges) ∨
    (driver.step f.queue (driver.acknowledge call index) = some g.queue ∧
      l.acknowledges ≠ (f.executions.loc index).acknowledges)

omit [DecidableEq T] in
theorem fleetExecute_cases (h : fleetExecute driver config home f index act call = some g) :
    ∃ s l, Executed driver config home f index act call s l g := by
  unfold fleetExecute at h
  split at h
  · cases h
  · rename_i executions hstep
    obtain ⟨s, l, hl, rfl⟩ := Pool.step_task hstep
    simp only [Pool.move_loc_self] at h
    split_ifs at h with hsame
    · obtain rfl := Option.some.inj h
      exact ⟨s, l, hl, rfl, rfl, rfl, .inl ⟨rfl, hsame⟩⟩
    · obtain ⟨queue, hqueue, rfl⟩ := Option.map_eq_some_iff.mp h
      exact ⟨s, l, hl, rfl, rfl, rfl, .inr ⟨hqueue, hsame⟩⟩

omit [DecidableEq I] in
theorem addedRow_eq {s s' : FailureStore D F I Nat} {record : FailedJobRecord D F}
    (h : addedRow l s s' = some record) : ∃ w, l.phase = .inserting w record := by
  unfold addedRow at h
  split at h
  · rename_i w other hphase
    split_ifs at h
    exact ⟨w, Option.some.inj h ▸ hphase⟩
  · cases h

-- A row that is in the table after the step was there before, or the execution has saved it.
omit [DecidableEq T] in
theorem Executed.row (h : Executed driver config home f index act call s l g) {id : Uuid}
    {record : FailedJobRecord D F} (hrecord : s.records id = some record) :
    f.executions.shared.records id = some record ∨ (index, record) ∈ g.saved := by
  obtain ⟨w, hgoes, -⟩ := execStep_goes h.step
  obtain hsame | ⟨new, hphase, hinserted⟩ := hgoes.rows
  · exact .inl (hsame ▸ hrecord)
  · have hrow := hrecord
    rw [hinserted, insertRecord_records] at hrow
    split_ifs at hrow with hnew
    · obtain rfl := Option.some.inj hrow
      obtain ⟨rfl, hnone⟩ := hnew
      right
      have hadded : addedRow (f.executions.loc index) f.executions.shared s = some new := by
        unfold addedRow
        rw [hphase]
        exact if_pos ⟨by rw [hnone]; rfl, by rw [hrecord]; rfl⟩
      rw [h.saved, hadded]
      exact List.mem_append_right _ List.mem_cons_self
    · exact .inl hrow

omit [DecidableEq T] in
theorem Executed.grows (h : Executed driver config home f index act call s l g) :
    f.saved ⊆ g.saved ∧ f.foreign ⊆ g.foreign := by
  refine ⟨?_, h.foreign ▸ List.Subset.refl _⟩
  rw [h.saved]
  exact List.subset_append_left _ _

-- The execution is at work on its own delivery.
theorem Executed.work (h : Executed driver config home f index act call s l g)
    (hi : FleetInv driver config good called f) (hallowed : allowed driver f index call act = true) :
    ∃ x, (driver.handed f.queue)[index]? = some x ∧ l.phase.work = some (received config x.delivery) := by
  obtain ⟨w, hgoes, hold | ⟨delivery, -, rfl, rfl⟩⟩ := execStep_goes h.step
  · obtain ⟨x, hx, rfl⟩ := hi.work index w hold
    exact ⟨x, hx, hgoes.work⟩
  · obtain ⟨x, hx, hdelivery⟩ := Option.map_eq_some_iff.mp (of_decide_eq_true hallowed)
    exact ⟨x, hx, by rw [hdelivery]; exact hgoes.work⟩

-- The execution by itself, before the queue takes its call of `acknowledge`.
theorem Executed.inv (h : Executed driver config home f index act call s l g)
    (hi : FleetInv driver config good called f) (hallowed : allowed driver f index call act = true) :
    FleetInv driver config good called { g with queue := f.queue } := by
  obtain ⟨x, hx, hwork⟩ := h.work hi hallowed
  obtain ⟨w, hgoes, -⟩ := execStep_goes h.step
  have hstepped := execStep_stepped (hi.exec.ok index) h.step
  obtain ⟨hsaved, hforeign⟩ := h.grows
  have hexec : ExecInv config g.executions := by
    rw [h.executions]
    exact execInv_step _ _ _ hi.exec (Pool.step_of_task h.step)
  have hloc : ∀ i, (i = index ∧ g.executions.loc i = l) ∨ g.executions.loc i = f.executions.loc i := by
    intro i
    rw [h.executions]
    by_cases hindex : i = index
    · subst hindex
      exact .inl ⟨rfl, Pool.move_loc_self _ _ _ _⟩
    · exact .inr (Pool.move_loc_ne _ _ _ hindex)
  have hknown : ∀ {record}, Known config f record → Known config g record := fun hrecord =>
    hrecord.grows hsaved hforeign
  have hrows : ∀ id record, s.records id = some record → Known config g record := by
    intro id record hrecord
    obtain hold | hnew := h.row hrecord
    · exact hknown (hi.rows id record hold)
    · exact .inl ⟨index, hnew⟩
  refine ⟨hi.queue, hexec, ?_, ?_, ?_, ?_, ?_, ?_, ?_, ?_⟩
  · intro i w' hw'
    obtain ⟨rfl, heq⟩ | heq := hloc i
    · rw [heq, hwork] at hw'
      exact ⟨x, hx, (Option.some.inj hw').symm⟩
    · exact hi.work i w' (heq ▸ hw')
  · intro i hidle
    obtain ⟨rfl, heq⟩ | heq := hloc i
    · rw [heq] at hidle
      rw [hidle] at hwork
      cases hwork
    · exact heq ▸ hi.idle i (heq ▸ hidle)
  · intro i hcalled
    have hold := hi.called i hcalled
    obtain ⟨rfl, heq⟩ | heq := hloc i
    · have hle := hgoes.acknowledges
      rw [heq]
      omega
    · rw [heq]
      exact hold
  · intro i
    obtain ⟨rfl, heq⟩ | heq := hloc i
    · rw [heq]
      exact hgoes.attempts (hi.attempts i)
    · rw [heq]
      exact hi.attempts i
  · intro i record hseen
    obtain ⟨rfl, heq⟩ | heq := hloc i
    · rw [heq] at hseen ⊢
      obtain hsame | ⟨w', hw', -, hrow⟩ := hstepped.seen
      · obtain ⟨w', hw', hid, hrecord⟩ := hi.seen i record (hsame ▸ hseen)
        exact ⟨w', hstepped.work w' hw', hid, hknown hrecord⟩
      · rw [hrow] at hseen
        have hkeyed : Keyed g.executions.shared := hexec.keyed
        rw [h.executions] at hkeyed
        exact ⟨w', hw', hkeyed _ record hseen, hrows _ record hseen⟩
    · rw [heq] at hseen ⊢
      obtain ⟨w', hw', hid, hrecord⟩ := hi.seen i record hseen
      exact ⟨w', hw', hid, hknown hrecord⟩
  · intro id record hrecord
    rw [h.executions] at hrecord
    exact hrows id record hrecord
  · intro i record hrecord
    rw [h.saved] at hrecord
    obtain hold | hnew := List.mem_append.mp hrecord
    · exact hi.saved i record hold
    · obtain ⟨other, hadded, heq⟩ := Option.map_eq_some_iff.mp (Option.mem_toList.mp hnew)
      obtain ⟨rfl, rfl⟩ := Prod.mk.inj heq
      obtain ⟨w', hphase⟩ := addedRow_eq hadded
      have hok := hi.exec.ok index
      unfold ExecOk at hok
      rw [hphase] at hok
      obtain ⟨y, hy, rfl⟩ := hi.work index w' (by rw [hphase]; rfl)
      exact ⟨y, hy, hok.2⟩
  · intro name hname
    rw [h.foreign] at hname
    exact hi.foreign name hname

end Execute

section Runs

-- The steps of the fleet, each with what it requires.
inductive FleetMove (driver : Driver K S A T) (config : ExecutorConfig D) (home : Nat → I)
    (f : Fleet S D F I T) : FleetAct A D F T → Fleet S D F I T → Prop
  | queue {act : A} {s : S} (hnot : ¬ driver.isAcknowledge act = true)
      (hs : driver.step f.queue act = some s) :
    FleetMove driver config home f (.queue act) { f with queue := s }
  | execute {index : Nat} {act : ExecAct D F} {call : T} {s : FailureStore D F I Nat} {l : Execution D F}
      {g : Fleet S D F I T} (hallowed : allowed driver f index call act = true)
      (h : Executed driver config home f index act call s l g) :
    FleetMove driver config home f (.execute index act call) g
  | save (connection queue identity : String) (record : FailedJobRecord D F)
      {executions : ExecPool D F I Nat} (hother : ¬ (connection = config.connection ∧ queue = config.queue))
      (h : execPoolStep config home f.executions (.inr (.save { record with
        failureId := config.uuid5 (failureText config.printable connection queue identity) })) =
        some executions) :
    FleetMove driver config home f (.save connection queue identity record) { f with
      executions := executions
      foreign := f.foreign ++ [failureText config.printable connection queue identity] }
  | delete {id : Uuid} {executions : ExecPool D F I Nat}
      (h : execPoolStep config home f.executions (.inr (.delete id)) = some executions) :
    FleetMove driver config home f (.delete id) { f with executions := executions }

theorem fleetMove_of_step {act : FleetAct A D F T} (h : fleetStep driver config home f act = some g) :
    FleetMove driver config home f act g := by
  cases act with
  | queue act =>
      simp only [fleetStep] at h
      split_ifs at h with hnot
      obtain ⟨s, hs, rfl⟩ := Option.map_eq_some_iff.mp h
      exact .queue hnot hs
  | execute index act call =>
      simp only [fleetStep] at h
      split_ifs at h with hallowed
      obtain ⟨s, l, hexecuted⟩ := fleetExecute_cases h
      exact .execute hallowed hexecuted
  | save connection queue identity record =>
      simp only [fleetStep] at h
      split_ifs at h with hother
      obtain ⟨executions, hstep, rfl⟩ := Option.map_eq_some_iff.mp h
      exact .save connection queue identity record hother hstep
  | delete id =>
      simp only [fleetStep] at h
      obtain ⟨executions, hstep, rfl⟩ := Option.map_eq_some_iff.mp h
      exact .delete hstep

theorem fleetInv_execute (hsound : DriverSound driver ok good called)
    (hi : FleetInv driver config good called f) {index : Nat} {act : ExecAct D F} {call : T}
    {s : FailureStore D F I Nat} {l : Execution D F} (hallowed : allowed driver f index call act = true)
    (hexecuted : Executed driver config home f index act call s l g) :
    FleetInv driver config good called g := by
  have hinv := hexecuted.inv hi hallowed
  obtain ⟨hsame, -⟩ | ⟨hqueue, hmore⟩ := hexecuted.queue
  · rw [← hsame] at hinv
    exact hinv
  · have hl : g.executions.loc index = l := by
      rw [hexecuted.executions]
      exact Pool.move_loc_self _ _ _ _
    have hle : l.acknowledges ≤ 1 := acknowledges_le (hl ▸ hinv.exec.ok index)
    obtain ⟨w, hgoes, -⟩ := execStep_goes hexecuted.step
    have hgrown := hgoes.acknowledges
    -- the execution has not called `acknowledge` before
    have hfirst : ¬ called f.queue index := fun hcalled => by
      have hone := hi.called index hcalled
      omega
    refine hinv.requeued (s := g.queue) ?_ (fun i x hx =>
      hsound.grows _ _ _ i x hi.queue hqueue hx) ?_ g.calls
    · refine hsound.kept _ _ _ hi.queue (hsound.admits _ _ _) (fun t i heq => ?_) hqueue
      rw [← hsound.injective _ _ _ _ heq]
      exact hfirst
    · intro i hcalled
      obtain hold | ⟨t, heq⟩ := hsound.calls _ _ _ i hqueue hcalled
      · exact hinv.called i hold
      · rw [← hsound.injective _ _ _ _ heq]
        show (g.executions.loc index).acknowledges ≠ 0
        rw [hl]
        omega

theorem fleetInv_step (hsound : DriverSound driver ok good called) {act : FleetAct A D F T}
    (hi : FleetInv driver config good called f) (hok : OnQueue ok f act)
    (h : fleetStep driver config home f act = some g) : FleetInv driver config good called g := by
  cases fleetMove_of_step h with
  | @queue act s hnot hs =>
      have hother : ∀ t index, act ≠ driver.acknowledge t index := by
        rintro t index rfl
        exact hnot (hsound.marked t index)
      refine hi.requeued (hsound.kept _ _ _ hi.queue hok (fun t index heq =>
        absurd heq (hother t index)) hs)
        (fun index x hx => hsound.grows _ _ _ index x hi.queue hs hx) (fun index hcalled => ?_) f.calls
      obtain hold | ⟨t, heq⟩ := hsound.calls _ _ _ index hs hcalled
      · exact hi.called index hold
      · exact absurd heq (hother t index)
  | execute hallowed hexecuted => exact fleetInv_execute hsound hi hallowed hexecuted
  | save connection queue id record hother hexecutions =>
      have hexec := execInv_step _ _ _ hi.exec hexecutions
      obtain ⟨s, hs, rfl⟩ := Pool.step_env hexecutions
      obtain rfl := Option.some.inj hs
      have hmem : failureText config.printable connection queue id ∈
          f.foreign ++ [failureText config.printable connection queue id] :=
        List.mem_append_right _ List.mem_cons_self
      have hforeign : f.foreign ⊆ f.foreign ++ [failureText config.printable connection queue id] :=
        List.subset_append_left _ _
      refine ⟨hi.queue, hexec, hi.work, hi.idle, hi.called, hi.attempts, ?_, ?_, hi.saved, ?_⟩
      · intro i other hseen
        obtain ⟨w, hw, hid, hrecord⟩ := hi.seen i other hseen
        exact ⟨w, hw, hid, hrecord.grows (List.Subset.refl _) hforeign⟩
      · intro id' other hrow
        simp only [insertRecord_records] at hrow
        split_ifs at hrow with hnew
        · obtain rfl := Option.some.inj hrow
          exact .inr ⟨_, hmem, rfl⟩
        · exact (hi.rows id' other hrow).grows (List.Subset.refl _) hforeign
      · intro name hname
        obtain hold | hnew := List.mem_append.mp hname
        · exact hi.foreign name hold
        · obtain rfl := List.mem_singleton.mp hnew
          exact ⟨connection, queue, id, rfl, hother⟩
  | @delete id executions hexecutions =>
      have hexec := execInv_step _ _ _ hi.exec hexecutions
      obtain ⟨s, hs, rfl⟩ := Pool.step_env hexecutions
      obtain rfl := Option.some.inj hs
      refine ⟨hi.queue, hexec, hi.work, hi.idle, hi.called, hi.attempts, hi.seen, ?_, hi.saved, hi.foreign⟩
      intro id' record hrow
      by_cases hid : id' = id
      · subst hid
        simp at hrow
      · exact hi.rows id' record (by simpa [hid] using hrow)

-- What a step keeps: the deliveries and the histories.
structure FleetGrows (driver : Driver K S A T) (f g : Fleet S D F I T) : Prop where
  handed : ∀ (index : Nat) x, (driver.handed f.queue)[index]? = some x →
    (driver.handed g.queue)[index]? = some x
  saved : f.saved ⊆ g.saved
  foreign : f.foreign ⊆ g.foreign

omit [DecidableEq I] [DecidableEq T] in
theorem FleetGrows.refl (f : Fleet S D F I T) : FleetGrows driver f f :=
  ⟨fun _ _ hx => hx, List.Subset.refl _, List.Subset.refl _⟩

omit [DecidableEq I] [DecidableEq T] in
theorem FleetGrows.trans {h : Fleet S D F I T} (hfg : FleetGrows driver f g) (hgh : FleetGrows driver g h) :
    FleetGrows driver f h :=
  ⟨fun index x hx => hgh.handed index x (hfg.handed index x hx), List.Subset.trans hfg.saved hgh.saved,
    List.Subset.trans hfg.foreign hgh.foreign⟩

theorem fleetGrows_step (hsound : DriverSound driver ok good called) {act : FleetAct A D F T}
    (hi : FleetInv driver config good called f) (h : fleetStep driver config home f act = some g) :
    FleetGrows driver f g := by
  cases fleetMove_of_step h with
  | queue hnot hs =>
      exact ⟨fun index x hx => hsound.grows _ _ _ index x hi.queue hs hx, List.Subset.refl _,
        List.Subset.refl _⟩
  | execute hallowed hexecuted =>
      obtain ⟨hsaved, hforeign⟩ := hexecuted.grows
      refine ⟨fun i x hx => ?_, hsaved, hforeign⟩
      obtain ⟨hsame, -⟩ | ⟨hqueue, -⟩ := hexecuted.queue
      · rw [hsame]
        exact hx
      · exact hsound.grows _ _ _ i x hi.queue hqueue hx
  | save connection queue id record hother hstep =>
      exact ⟨fun _ _ hx => hx, List.Subset.refl _, List.subset_append_left _ _⟩
  | delete hstep => exact ⟨fun _ _ hx => hx, List.Subset.refl _, List.Subset.refl _⟩

theorem fleetInv_restrict (hsound : DriverSound driver ok good called) (f : Fleet S D F I T)
    (act : FleetAct A D F T) (g : Fleet S D F I T) (hi : FleetInv driver config good called f)
    (h : restrict (OnQueue ok) (fleetStep driver config home) f act = some g) :
    FleetInv driver config good called g := by
  obtain ⟨hok, hstep⟩ := restrict_eq_some.mp h
  exact fleetInv_step hsound hi hok hstep

theorem fleetInv_reaches (hsound : DriverSound driver ok good called)
    (hi : FleetInv driver config good called f)
    (h : Reaches (restrict (OnQueue ok) (fleetStep driver config home)) f g) :
    FleetInv driver config good called g :=
  h.invariant (fleetInv_restrict hsound) hi

theorem fleetGrows_reaches (hsound : DriverSound driver ok good called)
    (hi : FleetInv driver config good called f)
    (h : Reaches (restrict (OnQueue ok) (fleetStep driver config home)) f g) : FleetGrows driver f g := by
  refine h.relation (fleetInv_restrict hsound) hi FleetGrows.refl (fun _ _ _ =>
    .trans) fun f act g hf hstep => ?_
  exact fleetGrows_step hsound hf (restrict_eq_some.mp hstep).2

-- A row stays until it is deleted.
theorem fleet_row {act : FleetAct A D F T} (hi : FleetInv driver config good called f) {id : Uuid}
    (hkept : act ≠ .delete id) (hrow : (f.executions.shared.records id).isSome = true)
    (h : fleetStep driver config home f act = some g) : (g.executions.shared.records id).isSome = true := by
  obtain ⟨record, hrecord⟩ := Option.isSome_iff_exists.mp hrow
  have hstay : ∀ {event executions}, event ≠ .inr (.delete id) →
      execPoolStep config home f.executions event = some executions →
      (executions.shared.records id).isSome = true := by
    intro event executions hevent hstep
    rw [records_step hi.exec hstep hrecord hevent]
    rfl
  cases fleetMove_of_step h with
  | queue hnot hs => exact hrow
  | execute hallowed hexecuted =>
      rw [hexecuted.executions]
      exact hstay (fun heq => by cases heq) (Pool.step_of_task hexecuted.step)
  | save connection queue identity new hother hstep =>
      exact hstay (fun heq => by cases heq) hstep
  | delete hstep =>
      refine hstay (fun heq => hkept ?_) hstep
      injection heq with heq
      injection heq with heq
      rw [heq]

-- Only its own steps move an execution.
theorem fleet_loc {act : FleetAct A D F T} (index : Nat) (h : fleetStep driver config home f act = some g) :
    g.executions.loc index = f.executions.loc index ∨
      ∃ act' call s l, act = .execute index act' call ∧ allowed driver f index call act' = true ∧
        execStep config home index f.executions.shared (f.executions.loc index) act' = some (s, l) ∧
        g.executions.loc index = l := by
  cases fleetMove_of_step h with
  | queue hnot hs => exact .inl rfl
  | @execute index' act call s l _ hallowed hexecuted =>
      rw [hexecuted.executions]
      by_cases hindex : index = index'
      · subst hindex
        exact .inr ⟨act, call, s, l, rfl, hallowed, hexecuted.step, Pool.move_loc_self _ _ _ _⟩
      · exact .inl (Pool.move_loc_ne _ _ _ hindex)
  | save connection queue id record hother hstep =>
      obtain ⟨s, -, rfl⟩ := Pool.step_env hstep
      exact .inl rfl
  | delete hstep =>
      obtain ⟨s, -, rfl⟩ := Pool.step_env hstep
      exact .inl rfl

-- The execution of a marked delivery, while the record of its failure stays.
theorem onlyAcknowledges_run (hsound : DriverSound driver ok good called) {acts : List (FleetAct A D F T)}
    {index : Nat} {x : Handed K} (hi : FleetInv driver config good called f)
    (hok : Along (fleetStep driver config home) (OnQueue ok) f acts)
    (h : run (fleetStep driver config home) f acts = some g)
    (hx : (driver.handed g.queue)[index]? = some x) (hmarked : x.delivery.possiblyRedelivered = true)
    (hrow : (f.executions.shared.records (failureId config (received config x.delivery))).isSome = true)
    (hkept : .delete (failureId config (received config x.delivery)) ∉ acts)
    (honly : OnlyAcknowledges (f.executions.loc index)) : OnlyAcknowledges (g.executions.loc index) := by
  induction acts generalizing f with
  | nil =>
      obtain rfl := Option.some.inj h
      exact honly
  | cons act acts ih =>
      obtain ⟨middle, hstep, hrun⟩ := (run_cons act acts).mp h
      have hact : act ≠ .delete (failureId config (received config x.delivery)) :=
        fun heq => hkept (heq ▸ List.mem_cons_self)
      have hinv := fleetInv_step hsound hi hok.1 hstep
      refine ih hinv (hok.2 middle hstep) hrun (fleet_row hi hact hrow hstep)
        (fun hmem => hkept (List.mem_cons_of_mem _ hmem)) ?_
      have hgrows : FleetGrows driver f g :=
        fleetGrows_reaches hsound hi ⟨act :: acts, run_restrict hok h⟩
      -- there is one delivery with this index
      have hown : ∀ y, (driver.handed f.queue)[index]? = some y → y = x := fun y hy =>
        Option.some.inj ((hgrows.handed index y hy).symm.trans hx)
      obtain hsame | ⟨act', call, s, l, rfl, hallowed, hexec, hloc⟩ := fleet_loc index hstep
      · rw [hsame]
        exact honly
      · rw [hloc]
        refine onlyAcknowledges_step honly ?_ ?_ hexec
        · rintro delivery rfl
          obtain ⟨y, hy, rfl⟩ := Option.map_eq_some_iff.mp (of_decide_eq_true hallowed)
          rw [hown y hy]
          exact hmarked
        · intro w hw
          obtain ⟨y, hy, rfl⟩ := hi.work index w hw
          rw [hown y hy]
          exact hrow

end Runs

section Messages

omit [DecidableEq I] [DecidableEq T] in
theorem failureName_mem {index : Nat} {x : Handed K} (hx : (driver.handed f.queue)[index]? = some x) :
    failureName config x ∈ (driver.handed f.queue).map (failureName config) :=
  List.mem_map_of_mem (List.mem_of_getElem? hx)

-- The record of a delivery of this queue is none of another place.
omit [DecidableEq I] [DecidableEq T] in
theorem not_foreign (hi : FleetInv driver config good called f) (hids : DistinctIds driver config f)
    {index : Nat}
    {x : Handed K} (hx : (driver.handed f.queue)[index]? = some x) {name : String}
    (hname : name ∈ f.foreign) :
    failureId config (received config x.delivery) ≠ config.uuid5 name := by
  intro heq
  have hsame : failureName config x = name := hids (.inl (failureName_mem hx)) (.inr hname) heq
  obtain ⟨connection, queue, id, rfl, hother⟩ := hi.foreign name hname
  obtain ⟨hconnection, hqueue, -⟩ := failureText_unique hsame
  exact hother ⟨hconnection.symm, hqueue.symm⟩

-- Two deliveries of one failure id carry the same entry.
omit [DecidableEq I] [DecidableEq T] in
theorem entry_of_failureId (hpublished : ∀ x ∈ driver.handed f.queue,
    driver.published f.queue x.entry x.delivery.payload)
    (hids : DistinctIds driver config f) (hjobs : DistinctJobs driver config f.queue) {i j : Nat}
    {x y : Handed K}
    (hx : (driver.handed f.queue)[i]? = some x) (hy : (driver.handed f.queue)[j]? = some y)
    {message : MessageEnvelope D} (hmessage : config.decode x.delivery.payload = .ok message)
    (hid : failureId config (received config y.delivery) = failureId config (received config x.delivery)) :
    y.entry = x.entry := by
  have hsame : failureName config y = failureName config x :=
    hids (.inl (failureName_mem hy)) (.inl (failureName_mem hx)) hid
  obtain ⟨-, -, hidentity⟩ := failureText_unique hsame
  rw [identity_decoded hmessage] at hidentity
  cases hdecode : config.decode y.delivery.payload with
  | error error =>
      rw [identity_undecoded hdecode] at hidentity
      exact absurd hidentity.symm (uuidText_ne_raw _ _)
  | ok other =>
      rw [identity_decoded hdecode] at hidentity
      have hpublishedx := hpublished x (List.mem_of_getElem? hx)
      have hpublishedy := hpublished y (List.mem_of_getElem? hy)
      exact hjobs _ _ _ _ _ _ hpublishedy hpublishedx hdecode hmessage (Python.uuidText_injective hidentity)

-- A message whose failure was recorded is only acknowledged from then on, and one that is
-- acknowledged without its resolver has a failure of its own.
structure FailuresKept (driver : Driver K S A T) (config : ExecutorConfig D) (home : Nat → I) (start : S)
    (acts : List (FleetAct A D F T)) (f : Fleet S D F I T) : Prop where
  again : ∀ before after g (index : Nat) x message, acts = before ++ after →
    run (fleetStep driver config home) (.init start) before = some g →
    (driver.handed f.queue)[index]? = some x → (driver.handed g.queue).length ≤ index →
    config.decode x.delivery.payload = .ok message →
    (g.executions.shared.records (failureId config (received config x.delivery))).isSome = true →
    .delete (failureId config (received config x.delivery)) ∉ after →
    OnlyAcknowledges (f.executions.loc index)
  own : ∀ index w message, (f.executions.loc index).phase.work = some w → w.message = some message →
    (f.executions.loc index).acknowledges ≠ 0 → (f.executions.loc index).resolved = false →
    ∃ x other y record, (driver.handed f.queue)[index]? = some x ∧ w = received config x.delivery ∧
      (driver.handed f.queue)[other]? = some y ∧ y.entry = x.entry ∧ (other, record) ∈ f.saved ∧
      record.failureId = failureId config w

theorem failuresKept_run (hsound : DriverSound driver ok good called) {start : S} (hgood : good start)
    (hcalled : ∀ index, ¬ called start index) {acts : List (FleetAct A D F T)}
    (hok : Along (fleetStep driver config home) (OnQueue ok) (.init start) acts)
    (h : run (fleetStep driver config home) (.init start) acts = some f)
    (hjobs : DistinctJobs driver config f.queue) (hids : DistinctIds driver config f) :
    FailuresKept driver config home start acts f := by
  have hinit : FleetInv driver config good called (.init start : Fleet S D F I T) :=
    fleetInv_init hgood hcalled
  have hf : FleetInv driver config good called f := fleetInv_reaches hsound hinit ⟨acts, run_restrict hok h⟩
  have hpublished := hsound.published _ hf.queue
  constructor
  · rintro before after g index x message rfl hbefore hx hlength hmessage hrow hkept
    obtain ⟨middle, hmiddle, hafter⟩ := (run_append before after).mp h
    obtain rfl := Option.some.inj (hbefore.symm.trans hmiddle)
    obtain ⟨hokbefore, hokafter⟩ := hok.after hbefore
    have hg : FleetInv driver config good called g :=
      fleetInv_reaches hsound hinit ⟨before, run_restrict hokbefore hbefore⟩
    have hgrows : FleetGrows driver g f :=
      fleetGrows_reaches hsound hg ⟨after, run_restrict hokafter hafter⟩
    obtain ⟨record, hrecord⟩ := Option.isSome_iff_exists.mp hrow
    have hid : record.failureId = failureId config (received config x.delivery) :=
      hg.exec.keyed _ record hrecord
    -- the record was saved by an execution of an earlier delivery of the message
    obtain ⟨other, hsaved⟩ | ⟨name, hname, hforeign⟩ := hg.rows _ record hrecord
    · obtain ⟨y, hy, hyid⟩ := hg.saved other record hsaved
      have hlt : other < index := Nat.lt_of_lt_of_le (List.getElem?_eq_some_iff.mp hy).1 hlength
      have hyf := hgrows.handed other y hy
      have hentry := entry_of_failureId hpublished hids hjobs hx hyf hmessage (hyid.symm.trans hid)
      have hmarked := hsound.flags _ other index y x hf.queue hlt hyf hx hentry
      refine onlyAcknowledges_run hsound hg hokafter hafter hx hmarked hrow hkept ?_
      -- nothing has been done on a delivery that is not there yet
      have hidle : (g.executions.loc index).phase = .idle := by
        cases hphase : (g.executions.loc index).phase.work with
        | none =>
            generalize (g.executions.loc index).phase = phase at hphase
            cases phase <;> first | rfl | cases hphase
        | some w =>
            obtain ⟨z, hz, -⟩ := hg.work index w hphase
            have hbound := (List.getElem?_eq_some_iff.mp hz).1
            omega
      rw [hg.idle index hidle]
      exact ⟨rfl, rfl, trivial⟩
    · exact absurd (hid.symm.trans hforeign) (not_foreign hf hids hx (hgrows.foreign hname))
  · intro index w message hwork hmessage hacks hresolved
    have hlast := (hf.attempts index hresolved).1
    have hseen : (f.executions.loc index).seen.isSome = true := by
      refine (settled_of_acknowledges (hf.exec.ok index) hacks).resolve_left fun hsuccess => ?_
      rw [hlast] at hsuccess
      cases hsuccess
    obtain ⟨record, hrecord⟩ := Option.isSome_iff_exists.mp hseen
    obtain ⟨w', hw', hid, hknown⟩ := hf.seen index record hrecord
    obtain rfl := Option.some.inj (hwork.symm.trans hw')
    obtain ⟨x, hx, rfl⟩ := hf.work index w hwork
    obtain ⟨other, hsaved⟩ | ⟨name, hname, hforeign⟩ := hknown
    · obtain ⟨y, hy, hyid⟩ := hf.saved other record hsaved
      have hdecode : config.decode x.delivery.payload = .ok message := by
        cases hdecode : config.decode x.delivery.payload with
        | error error => simp [received, hdecode, Except.toOption] at hmessage
        | ok decoded =>
            simp only [received, hdecode, Except.toOption, Option.some.injEq] at hmessage
            rw [hmessage]
      have hentry := entry_of_failureId hpublished hids hjobs hx hy hdecode (hyid.symm.trans hid)
      exact ⟨x, other, y, record, hx, rfl, hy, hentry, hsaved, hid⟩
    · exact absurd (hid.symm.trans hforeign) (not_foreign hf hids hx hname)

end Messages

section Queues

variable {C M P : Type} [DecidableEq C] [DecidableEq M] [DecidableEq P]

omit [DecidableEq C] [DecidableEq T] in
theorem redisFirst_init : Queue.RedisFirst (Queue.RedisPool.init C T) :=
  fun _ _ _ _ _ => nofun

theorem recorded_failure_not_executed (config : ExecutorConfig D) (home : Nat → I) :
    (∀ lease acts (f : Fleet (Queue.RedisPool C T) D F I T),
      run (fleetStep (redisDriver lease) config home) (.init (.init C T)) acts = some f →
      Along (fleetStep (redisDriver lease) config home) (OnQueue Queue.FreshReads)
        (.init (.init C T)) acts →
      DistinctJobs (redisDriver (T := T) lease) config f.queue → DistinctIds (redisDriver lease) config f →
      FailuresKept (redisDriver lease) config home (.init C T) acts f) ∧
    ∀ stored earliest acts (f : Fleet (Queue.KafkaPool M P T) D F I T),
      run (fleetStep kafkaDriver config home) (.init (.init M P T stored earliest)) acts = some f →
      DistinctJobs (kafkaDriver (T := T)) config f.queue → DistinctIds kafkaDriver config f →
      FailuresKept kafkaDriver config home (.init M P T stored earliest) acts f := by
  constructor
  · intro lease acts f h hok hjobs hids
    exact failuresKept_run redis_sound ⟨Queue.redisInv_init, redisFirst_init⟩
      (fun _ hcalled => hcalled) hok h hjobs
      hids
  · intro stored earliest acts f h hjobs hids
    have hok : Along (fleetStep kafkaDriver config home) (OnQueue fun _ _ => True)
        (.init (.init M P T stored earliest)) acts := by
      refine along_of_forall (fun f act => ?_) _ _
      cases act <;> trivial
    exact failuresKept_run kafka_sound ⟨Queue.kafkaInv_init stored earliest,
      Queue.kafkaOnce_init stored earliest⟩
      (fun _ => nofun) hok h hjobs hids

end Queues

section Claimed

abbrev ClaimAct := FleetAct ((Nat × Queue.RedisAct Nat) ⊕ Queue.RedisEvent Nat) Nat Nat Nat

abbrev ClaimFleet := Fleet (Queue.RedisPool Nat Nat) Nat Nat Unit Nat

abbrev claimStep : ClaimFleet → ClaimAct → Option ClaimFleet :=
  fleetStep (redisDriver 5) (quotedPlace "main" "default") fun _ => ()

-- The handler of a message fails and the record is saved.
def failedOnce : List ClaimAct :=
  [.queue (.inr (.publish [123])), .queue (.inl (0, .receive 0)), .queue (.inl (0, .acquire)),
    .queue (.inl (0, .execute)), .queue (.inl (0, .reply)), .queue (.inl (0, .execute)),
    .queue (.inl (0, .reply)),
    .execute 0 (.execute ⟨[123], false⟩) 0, .execute 0 (.resolve (.binding {})) 0,
    .execute 0 (.attemptEnds (.exception ⟨"ValueError", []⟩)) 0, .execute 0 (.finish 8) 0,
    .execute 0 .acquire 0,
    .execute 0 .commit 0]

-- Its acknowledgement raises, and another consumer claims the entry when the lease is over.
def claimedAgain : List ClaimAct :=
  [.execute 0 .returns 1, .queue (.inl (1, .raises)), .execute 0 (.raises false) 1, .queue (.inr (.tick 5)),
    .queue (.inl (2, .receive 1)), .queue (.inl (2, .acquire)), .queue (.inl (2, .execute)),
    .queue (.inl (2, .reply)), .execute 1 (.execute ⟨[123], true⟩) 1, .execute 1 .get 1,
    .execute 1 .returns 3,
    .queue (.inl (3, .acquire)), .queue (.inl (3, .execute)), .queue (.inl (3, .reply)),
    .execute 1 .acknowledged 3]

-- One entry that was delivered twice has one job id and one failure id.
theorem claimed_distinct {f : ClaimFleet} {first second : Bool}
    (hlog : f.queue.shared.server.stream.log = [⟨1, [123]⟩])
    (hhanded : (redisDriver 5).handed f.queue = [⟨1, ⟨[123], first⟩⟩, ⟨1, ⟨[123], second⟩⟩])
    (hforeign : f.foreign = []) :
    DistinctJobs (redisDriver 5) (quotedPlace "main" "default") f.queue ∧
      DistinctIds (redisDriver 5) (quotedPlace "main" "default") f := by
  have hpublished : ∀ entry payload, (redisDriver 5).published f.queue entry payload → entry = 1 := by
    intro entry payload h
    have hmem : (⟨entry, payload⟩ : Redis.StreamEntry Queue.Bytes) ∈ f.queue.shared.server.stream.log := h
    rw [hlog, List.mem_singleton] at hmem
    exact congrArg Redis.StreamEntry.id hmem
  have hname : ∀ name, name ∈ ((redisDriver 5).handed f.queue).map
      (failureName (quotedPlace "main" "default")) ∨ name ∈ f.foreign →
      name = failureName (quotedPlace "main" "default") (⟨1, ⟨[123], false⟩⟩ : Handed Nat) := by
    rw [hhanded, hforeign]
    rintro name (h | h)
    · obtain rfl | h := List.mem_cons.mp h
      · rfl
      · exact List.mem_singleton.mp h
    · cases h
  constructor
  · intro entry entry' payload payload' _ _ h h' _ _ _
    rw [hpublished entry payload h, hpublished entry' payload' h']
  · intro name h name' h' _
    rw [hname name h, hname name' h']

theorem recorded_failure_not_executed_claimed :
    ∃ f, run claimStep (.init (.init Nat Nat)) (failedOnce ++ claimedAgain) = some f ∧
      (f.executions.loc 1).acknowledges = 1 ∧ OnlyAcknowledges (f.executions.loc 1) := by
  let config := quotedPlace "main" "default"
  obtain ⟨g, hg, hlength, hrow⟩ : ∃ g, run claimStep (.init (.init Nat Nat)) failedOnce = some g ∧
      ((redisDriver 5).handed g.queue).length = 1 ∧
      (g.executions.shared.records (failureId config (received config ⟨[123], true⟩))).isSome = true :=
    ⟨_, rfl, rfl, rfl⟩
  obtain ⟨f, hf, hlog, hhanded, hforeign, hacks⟩ :
      ∃ f, run claimStep (.init (.init Nat Nat)) (failedOnce ++ claimedAgain) = some f ∧
        f.queue.shared.server.stream.log = [⟨1, [123]⟩] ∧
        (redisDriver 5).handed f.queue = [⟨1, ⟨[123], false⟩⟩, ⟨1, ⟨[123], true⟩⟩] ∧ f.foreign = [] ∧
        (f.executions.loc 1).acknowledges = 1 := ⟨_, rfl, rfl, rfl, rfl, rfl⟩
  have hfresh : Along claimStep (OnQueue Queue.FreshReads) (.init (.init Nat Nat))
    (failedOnce ++ claimedAgain) := by
    decide +kernel
  obtain ⟨hjobs, hids⟩ := claimed_distinct hlog hhanded hforeign
  have hkept := (recorded_failure_not_executed (M := Unit)
    (P := Unit) config fun _ => ()).1 5 _ f hf hfresh hjobs hids
  have hdelete : ∀ id, .delete id ∉ claimedAgain := by simp [claimedAgain]
  refine ⟨f, hf, hacks,
    hkept.again failedOnce claimedAgain g 1 ⟨1, ⟨[123], true⟩⟩ _ rfl hg ?_ ?_ rfl hrow (hdelete _)⟩
  · rw [hhanded]
    rfl
  · exact Nat.le_of_eq hlength

-- While the answer of a first read is on its way another consumer claims the entry, and its failure
-- is recorded.
def overtaken : List ClaimAct :=
  [.queue (.inr (.publish [123])), .queue (.inl (0, .receive 0)), .queue (.inl (0, .acquire)),
    .queue (.inl (0, .execute)), .queue (.inl (0, .reply)), .queue (.inl (0, .execute)),
    .queue (.inr (.tick 5)), .queue (.inl (1, .receive 1)), .queue (.inl (1, .acquire)),
    .queue (.inl (1, .execute)), .queue (.inl (1, .reply)),
    .execute 0 (.execute ⟨[123], true⟩) 0, .execute 0 .get 0, .execute 0 .returns 0,
    .execute 0 (.resolve (.binding {})) 0, .execute 0 (.attemptEnds (.exception ⟨"ValueError", []⟩)) 0,
    .execute 0 (.finish 8) 0, .execute 0 .acquire 0, .execute 0 .commit 0]

-- The answer makes a delivery without the mark, whose handler is run.
def readLate : List ClaimAct :=
  [.queue (.inl (0, .reply)), .execute 1 (.execute ⟨[123], false⟩) 2,
    .execute 1 (.resolve (.binding {})) 2, .execute 1 (.attemptEnds (.returned false)) 2]

theorem recorded_failure_executed_again : ∃ f : ClaimFleet,
    run claimStep (.init (.init Nat Nat)) (overtaken ++ readLate) = some f ∧
      DistinctJobs (redisDriver 5) (quotedPlace "main" "default") f.queue ∧
      DistinctIds (redisDriver 5) (quotedPlace "main" "default") f ∧
      (f.executions.loc 1).last = some (.returned false) ∧
      ¬ FailuresKept (redisDriver 5) (quotedPlace "main" "default") (fun _ => ()) (.init Nat Nat)
        (overtaken ++ readLate) f := by
  let config := quotedPlace "main" "default"
  obtain ⟨g, hg, hlength, hrow⟩ : ∃ g, run claimStep (.init (.init Nat Nat)) overtaken = some g ∧
      ((redisDriver 5).handed g.queue).length = 1 ∧
      (g.executions.shared.records (failureId config (received config ⟨[123], false⟩))).isSome = true :=
    ⟨_, rfl, rfl, rfl⟩
  obtain ⟨f, hf, hlog, hhanded, hforeign, hlast⟩ :
      ∃ f, run claimStep (.init (.init Nat Nat)) (overtaken ++ readLate) = some f ∧
        f.queue.shared.server.stream.log = [⟨1, [123]⟩] ∧
        (redisDriver 5).handed f.queue = [⟨1, ⟨[123], true⟩⟩, ⟨1, ⟨[123], false⟩⟩] ∧ f.foreign = [] ∧
        (f.executions.loc 1).last = some (.returned false) := ⟨_, rfl, rfl, rfl, rfl, rfl⟩
  obtain ⟨hjobs, hids⟩ := claimed_distinct hlog hhanded hforeign
  have hdelete : ∀ id, .delete id ∉ readLate := by simp [readLate]
  refine ⟨f, hf, hjobs, hids, hlast, fun hkept => ?_⟩
  obtain ⟨-, hnone, -⟩ := hkept.again overtaken readLate g 1 ⟨1, ⟨[123], false⟩⟩ _ rfl hg
    (by rw [hhanded]; rfl) (Nat.le_of_eq hlength) rfl hrow (hdelete _)
  rw [hlast] at hnone
  cases hnone

end Claimed

end Scaffold.Worker
