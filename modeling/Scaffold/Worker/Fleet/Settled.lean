import Scaffold.Worker.Fleet.Rabbit
import Scaffold.Worker.Fleet.Theorems

namespace Scaffold.Worker

open Machine Queue

section Positions

variable {K S A T : Type} {driver : Driver K S A T} {good : S → Prop} {called : S → Nat → Prop}

-- The same queue with every delivery as an entry of its own: nothing is asked of the marks.
def Driver.positions (driver : Driver K S A T) : Driver (K × Nat) S A T :=
  { driver with
    handed := fun s => (driver.handed s).zipIdx.map fun x => ⟨(x.1.entry, x.2), x.1.delivery⟩
    published := fun _ _ _ => True }

theorem positions_handed (s : S) (index : Nat) :
    (driver.positions.handed s)[index]? =
      (driver.handed s)[index]?.map fun x => ⟨(x.entry, index), x.delivery⟩ := by
  simp only [Driver.positions, List.getElem?_map, List.getElem?_zipIdx, Option.map_map, Nat.zero_add]
  rfl

-- What the executions rely on, but for the marks.
structure DriverKeeps (driver : Driver K S A T) (good : S → Prop) (called : S → Nat → Prop) : Prop where
  marked : ∀ t index, driver.isAcknowledge (driver.acknowledge t index) = true
  injective : ∀ t t' index index', driver.acknowledge t index = driver.acknowledge t' index' →
    index = index'
  kept : ∀ s act s', good s → driver.step s act = some s' → good s'
  calls : ∀ s act s' (index : Nat), driver.step s act = some s' → called s' index →
    called s index ∨ ∃ t, act = driver.acknowledge t index
  grows : ∀ s act s' (index : Nat) x, driver.step s act = some s' →
    (driver.handed s)[index]? = some x → (driver.handed s')[index]? = some x

theorem DriverKeeps.sound (h : DriverKeeps driver good called) :
    DriverSound driver.positions (fun _ _ => True) good called where
  marked := h.marked
  injective := h.injective
  admits _ _ _ := trivial
  kept s act s' hs _ _ hstep := h.kept s act s' hs hstep
  calls := h.calls
  grows s act s' index x _ hstep hx := by
    rw [positions_handed] at hx ⊢
    obtain ⟨y, hy, rfl⟩ := Option.map_eq_some_iff.mp hx
    rw [h.grows s act s' index y hstep hy]
    rfl
  flags s i j x y _ hij hx hy hentry := by
    rw [positions_handed] at hx hy
    obtain ⟨_, -, rfl⟩ := Option.map_eq_some_iff.mp hx
    obtain ⟨_, -, rfl⟩ := Option.map_eq_some_iff.mp hy
    exact absurd (Prod.mk.inj hentry).2 (Nat.ne_of_lt hij)
  published _ _ _ _ := trivial

variable {D F I : Type} [DecidableEq I] [DecidableEq T] {config : ExecutorConfig D} {home : Nat → I}

theorem positions_step :
    fleetStep (F := F) driver.positions config home = fleetStep driver config home := by
  have hallowed : ∀ (f : Fleet S D F I T) index call act,
      allowed driver.positions f index call act = allowed driver f index call act := by
    intro f index call act
    cases act with
    | execute delivery =>
        have hsame : (driver.positions.handed f.queue)[index]?.map (·.delivery) =
            (driver.handed f.queue)[index]?.map (·.delivery) := by
          rw [positions_handed, Option.map_map]
          rfl
        simp only [allowed, hsame]
    | _ => rfl
  funext f act
  cases act with
  | execute index act call =>
      simp only [fleetStep, hallowed]
      rfl
  | _ => rfl

end Positions

section Settled

variable {K S A T D F I : Type} [DecidableEq I] [DecidableEq T] {driver : Driver K S A T}
  {config : ExecutorConfig D} {home : Nat → I} {ok : S → A → Prop} {good : S → Prop}
  {called : S → Nat → Prop} {acts : List (FleetAct A D F T)} {f g : Fleet S D F I T}

-- The execution of a delivery ended in time, or has seen a record of its failure, which is still in the
-- table if nobody has deleted it.
def SettledAs (config : ExecutorConfig D) (acts : List (FleetAct A D F T)) (f : Fleet S D F I T)
    (index : Nat) (delivery : Delivery) : Prop :=
  (f.executions.loc index).phase.work = some (received config delivery) ∧
    ((f.executions.loc index).last = some (.returned false) ∨
      ∃ record, (f.executions.loc index).seen = some record ∧
        record.failureId = failureId config (received config delivery) ∧
        (.delete record.failureId ∉ acts →
          (f.executions.shared.records record.failureId).isSome = true))

def JobSettled (driver : Driver K S A T) (config : ExecutorConfig D) (acts : List (FleetAct A D F T))
    (f : Fleet S D F I T) (entry : K) : Prop :=
  ∃ (index : Nat) (x : Handed K), (driver.handed f.queue)[index]? = some x ∧ x.entry = entry ∧
    SettledAs config acts f index x.delivery

-- A record that an execution has seen is in the table.
def SeenKept (id : Uuid) (f : Fleet S D F I T) : Prop :=
  ∀ index record, (f.executions.loc index).seen = some record → record.failureId = id →
    (f.executions.shared.records id).isSome = true

theorem seenKept_step (hi : FleetInv driver config good called f) {act : FleetAct A D F T} {id : Uuid}
    (hkept : act ≠ .delete id) (hseen : SeenKept id f) (h : fleetStep driver config home f act = some g) :
    SeenKept id g := by
  intro index record hrecord hid
  obtain hsame | ⟨act', call, s, l, rfl, hallowed, hexec, hloc⟩ := fleet_loc index h
  · exact fleet_row hi hkept (hseen index record (hsame ▸ hrecord) hid) h
  · obtain hold | ⟨w, -, -, hrow⟩ := (execStep_stepped (hi.exec.ok index) hexec).seen
    · exact fleet_row hi hkept (hseen index record (hold ▸ hloc ▸ hrecord) hid) h
    · -- the row was read, or inserted, by this step
      have hmove : g.executions.shared = s := by
        cases fleetMove_of_step h with
        | execute _ hexecuted =>
            rw [hexecuted.executions]
            exact congrArg Prod.fst (Option.some.inj (hexecuted.step.symm.trans hexec))
      have hstored : s.records (failureId config w) = some record := by
        rw [← hrow, ← hloc]
        exact hrecord
      have hstep : execPoolStep config home f.executions (.inl (index, act')) =
          some (f.executions.move index s l) := Pool.step_of_task hexec
      have hkeyed : Keyed s := (execInv_step _ _ _ hi.exec hstep).keyed
      obtain rfl : failureId config w = id := (hkeyed _ _ hstored).symm.trans hid
      rw [hmove, hstored]
      rfl

theorem seenKept_run (hsound : DriverSound driver ok good called)
    (hi : FleetInv driver config good called f)
    (hok : Along (fleetStep driver config home) (OnQueue ok) f acts)
    (h : run (fleetStep driver config home) f acts = some g) {id : Uuid} (hkept : .delete id ∉ acts)
    (hseen : SeenKept id f) : SeenKept id g := by
  induction acts generalizing f with
  | nil =>
      obtain rfl := Option.some.inj h
      exact hseen
  | cons act acts ih =>
      obtain ⟨middle, hstep, hrun⟩ := (run_cons act acts).mp h
      have hact : act ≠ .delete id := fun heq => hkept (heq ▸ List.mem_cons_self)
      exact ih (fleetInv_step hsound hi hok.1 hstep) (hok.2 middle hstep) hrun
        (fun hmem => hkept (List.mem_cons_of_mem _ hmem)) (seenKept_step hi hact hseen hstep)

-- What was acknowledged is settled.
theorem settled_run (hsound : DriverSound driver ok good called) {start : S} (hgood : good start)
    (hcalled : ∀ index, ¬ called start index)
    (hok : Along (fleetStep driver config home) (OnQueue ok) (.init start) acts)
    (h : run (fleetStep driver config home) (.init start) acts = some f) :
    good f.queue ∧ ∀ index, called f.queue index →
      ∃ x, (driver.handed f.queue)[index]? = some x ∧ SettledAs config acts f index x.delivery := by
  have hinit : FleetInv driver config good called (.init start : Fleet S D F I T) :=
    fleetInv_init hgood hcalled
  have hf : FleetInv driver config good called f := fleetInv_reaches hsound hinit ⟨acts, run_restrict hok h⟩
  refine ⟨hf.queue, fun index hindex => ?_⟩
  have hacks := hf.called index hindex
  obtain ⟨w, hw⟩ : ∃ w, (f.executions.loc index).phase.work = some w := by
    refine Option.isSome_iff_exists.mp ?_
    by_contra hnone
    have hidle : (f.executions.loc index).phase = .idle := by
      generalize (f.executions.loc index).phase = phase at hnone
      cases phase <;> first | rfl | exact absurd rfl hnone
    rw [hf.idle index hidle] at hacks
    exact hacks rfl
  obtain ⟨x, hx, rfl⟩ := hf.work index w hw
  refine ⟨x, hx, hw, ?_⟩
  obtain hsuccess | hseen := settled_of_acknowledges (hf.exec.ok index) hacks
  · exact .inl hsuccess
  · obtain ⟨record, hrecord⟩ := Option.isSome_iff_exists.mp hseen
    obtain ⟨w', hw', hid, -⟩ := hf.seen index record hrecord
    obtain rfl := Option.some.inj (hw.symm.trans hw')
    refine .inr ⟨record, hrecord, hid, fun hkept => ?_⟩
    exact seenKept_run hsound hinit hok h hkept (fun _ _ => nofun) index record hrecord rfl

theorem DriverKeeps.settled (hkeeps : DriverKeeps driver good called) {start : S} (hgood : good start)
    (hcalled : ∀ index, ¬ called start index)
    (h : run (fleetStep driver config home) (.init start) acts = some f) :
    good f.queue ∧ ∀ index, called f.queue index →
      ∃ x, (driver.handed f.queue)[index]? = some x ∧ SettledAs config acts f index x.delivery := by
  have hok : Along (fleetStep driver.positions config home) (OnQueue fun _ _ => True) (.init start) acts := by
    refine along_of_forall (fun f act => ?_) _ _
    cases act <;> trivial
  rw [← positions_step] at h
  obtain ⟨hf, hall⟩ := settled_run hkeeps.sound hgood hcalled hok h
  refine ⟨hf, fun index hindex => ?_⟩
  obtain ⟨y, hy, hsettled⟩ := hall index hindex
  rw [positions_handed] at hy
  obtain ⟨x, hx, rfl⟩ := Option.map_eq_some_iff.mp hy
  exact ⟨x, hx, hsettled⟩

end Settled

section Redis

variable {C T : Type} [DecidableEq C] [DecidableEq T] {lease : Nat} {p q : RedisPool C T}

-- The delivery for which a command or a call runs the ack script.
def commandDelivery : RedisCommand C → Option Nat
  | .ownedAck _ delivery _ => some delivery
  | _ => none

def phaseDelivery : RedisPhase C → Option Nat
  | .ackLock _ delivery _ => some delivery
  | .acking _ delivery _ _ => some delivery
  | _ => none

-- The script is on its way for a delivery, or it has removed the entry.
def RedisCalled (p : RedisPool C T) (index : Nat) : Prop :=
  (∃ r ∈ p.shared.server.removals, r.delivery = index) ∨ (∃ t, phaseDelivery (p.loc t) = some index) ∨
    ∃ command ∈ p.shared.orphans, commandDelivery command = some index

omit [DecidableEq C] [DecidableEq T] in
theorem command_phase {l : RedisPhase C} {command : RedisCommand C} (h : l.command = some command)
    {index : Nat} (hindex : commandDelivery command = some index) : phaseDelivery l = some index := by
  unfold RedisPhase.command at h
  split at h
  · obtain rfl := Option.some.inj h
    cases hindex
  · obtain rfl := Option.some.inj h
    cases hindex
  · obtain rfl := Option.some.inj h
    exact hindex
  · obtain rfl := Option.some.inj h
    cases hindex
  · cases h

omit [DecidableEq T] in
theorem runCommand_removals {s : RedisServer C T} {issuer : Option T} {command : RedisCommand C}
    {r : Removal C T} (h : r ∈ (runCommand lease s issuer command).1.removals) :
    r ∈ s.removals ∨ commandDelivery command = some r.delivery := by
  cases command with
  | xautoclaim c cursor => exact .inl h
  | xreadgroup c => exact .inl h
  | ownedAck c delivery identity =>
      simp only [runCommand, ownedAck] at h
      split_ifs at h
      · obtain hold | hnew := List.mem_append.mp h
        · exact .inl hold
        · obtain rfl := List.mem_singleton.mp hnew
          exact .inr rfl
      · exact .inl h
      · exact .inl h
  | ownedRenewBatch c identities =>
      simp only [runCommand, ownedRenewBatch] at h
      split_ifs at h <;> exact .inl h

omit [DecidableEq C] [DecidableEq T] in
theorem phaseDelivery_withReply (l : RedisPhase C) (reply : Option RedisReply) :
    phaseDelivery (l.withReply reply) = phaseDelivery l := by
  cases l <;> rfl

theorem deliver_phase (s : RedisShared C T) (t : T) (c : C) (entry : Redis.StreamEntry Bytes) (grant : Nat)
    (redelivered : Bool) : phaseDelivery (deliver s t c entry grant redelivered).2 = none := by
  unfold deliver
  dsimp only
  split_ifs <;> rfl

omit [DecidableEq C] in
theorem receiveLoop_phase (s : RedisShared C T) (t : T) (c : C) :
    phaseDelivery (receiveLoop s t c).2 = none := by
  unfold receiveLoop
  split_ifs <;> rfl

-- A call that is at the script was there before, or begins with this step.
theorem phaseDelivery_step {t : T} {s s' : RedisShared C T} {l l' : RedisPhase C} {act : RedisAct C}
    (h : redisStep lease t s l act = some (s', l')) {index : Nat} (hindex : phaseDelivery l' = some index) :
    phaseDelivery l = some index ∨ act = .acknowledge index := by
  cases act with
  | receive c =>
      simp only [redisStep] at h
      split at h
      · obtain ⟨-, rfl⟩ := Prod.mk.inj (Option.some.inj h)
        cases hindex
      · cases h
  | acknowledge other =>
      simp only [redisStep] at h
      split at h
      · split_ifs at h
        · obtain ⟨-, rfl⟩ := Prod.mk.inj (Option.some.inj h)
          cases hindex
        · obtain ⟨-, rfl⟩ := Prod.mk.inj (Option.some.inj h)
          obtain rfl := Option.some.inj hindex
          exact .inr rfl
      · cases h
  | renew c =>
      simp only [redisStep] at h
      split at h
      · obtain ⟨-, rfl⟩ := Prod.mk.inj (Option.some.inj h)
        cases hindex
      · cases h
  | acquire =>
      left
      simp only [redisStep, acquireLock] at h
      split at h
      · split_ifs at h
        obtain rfl : (receiveLoop ..).2 = l' := congrArg Prod.snd (Option.some.inj h)
        rw [receiveLoop_phase] at hindex
        cases hindex
      · split_ifs at h
        cases h
        exact hindex
      · split_ifs at h <;> cases h <;> cases hindex
      · cases h
  | execute =>
      left
      simp only [redisStep] at h
      split at h
      · cases h
      · obtain ⟨-, rfl⟩ := Prod.mk.inj (Option.some.inj h)
        exact (phaseDelivery_withReply l _).symm.trans hindex
  | resend =>
      left
      simp only [redisStep] at h
      split at h <;> cases h
      all_goals exact hindex
  | reply =>
      simp only [redisStep, processReply] at h
      split at h
      · split at h
        · obtain rfl : (deliver ..).2 = l' := congrArg Prod.snd (Option.some.inj h)
          rw [deliver_phase] at hindex
          cases hindex
        · cases h
          cases hindex
      · split at h
        · obtain rfl : (deliver ..).2 = l' := congrArg Prod.snd (Option.some.inj h)
          rw [deliver_phase] at hindex
          cases hindex
        · obtain rfl : (receiveLoop ..).2 = l' := congrArg Prod.snd (Option.some.inj h)
          rw [receiveLoop_phase] at hindex
          cases hindex
      · split_ifs at h <;> cases h <;> cases hindex
      · split_ifs at h <;> cases h <;> cases hindex
      · cases h
  | raises =>
      simp only [redisStep, raiseAwait] at h
      split at h <;> cases h
      all_goals cases hindex

-- What a step adds to the removals and the orphans belongs to the call that takes it.
theorem redisTask_called {t : T} {s s' : RedisShared C T} {l l' : RedisPhase C} {act : RedisAct C}
    (h : redisStep lease t s l act = some (s', l')) :
    (∀ r ∈ s'.server.removals, r ∈ s.server.removals ∨ phaseDelivery l = some r.delivery) ∧
      ∀ command ∈ s'.orphans, command ∈ s.orphans ∨ l.command = some command := by
  have heffect := redisStep_effect h
  cases heffect with
  | moved _ _ server _ _ orphans => exact ⟨fun r hr => .inl (server ▸ hr), orphans⟩
  | executed command hcommand =>
      refine ⟨fun r hr => ?_, fun _ hmem => .inl hmem⟩
      exact (runCommand_removals hr).imp_right fun hdelivery => command_phase hcommand hdelivery
  | delivered _ _ _ _ _ _ _ server orphans =>
      exact ⟨fun r hr => .inl (server ▸ hr), fun _ hmem => .inl (orphans ▸ hmem)⟩
  | settled _ _ _ _ _ server orphans =>
      exact ⟨fun r hr => .inl (server ▸ hr), fun _ hmem => .inl (orphans ▸ hmem)⟩

omit [DecidableEq T] in
theorem redisEvent_called {s s' : RedisShared C T} {event : RedisEvent C}
    (h : redisEvent lease s event = some s') :
    (∀ r ∈ s'.server.removals, r ∈ s.server.removals ∨
      ∃ command ∈ s.orphans, commandDelivery command = some r.delivery) ∧ s'.orphans ⊆ s.orphans := by
  cases event with
  | publish payload =>
      obtain rfl := Option.some.inj h
      exact ⟨fun _ hr => .inl hr, List.Subset.refl _⟩
  | tick elapsed =>
      obtain rfl := Option.some.inj h
      exact ⟨fun _ hr => .inl hr, List.Subset.refl _⟩
  | orphan index =>
      simp only [redisEvent] at h
      split at h
      · cases h
      · rename_i command hcommand
        obtain rfl := Option.some.inj h
        refine ⟨fun r hr => ?_, List.eraseIdx_subset⟩
        exact (runCommand_removals hr).imp_right fun hdelivery =>
          ⟨command, List.mem_of_getElem? hcommand, hdelivery⟩
  | aclose c =>
      obtain rfl := Option.some.inj h
      exact ⟨fun _ hr => .inl hr, List.Subset.refl _⟩

theorem redis_called {act : (T × RedisAct C) ⊕ RedisEvent C} (h : redisPoolStep lease p act = some q)
    {index : Nat} (hindex : RedisCalled q index) :
    RedisCalled p index ∨ ∃ t, act = .inl (t, .acknowledge index) := by
  cases act with
  | inl act =>
      obtain ⟨t, act⟩ := act
      obtain ⟨s, l, hstep, rfl⟩ := Pool.step_task h
      obtain ⟨hremovals, horphans⟩ := redisTask_called hstep
      obtain ⟨r, hr, rfl⟩ | ⟨t', ht'⟩ | ⟨command, hcommand, hdelivery⟩ := hindex
      · obtain hold | hphase := hremovals r hr
        · exact .inl (.inl ⟨r, hold, rfl⟩)
        · exact .inl (.inr (.inl ⟨t, hphase⟩))
      · by_cases hsame : t' = t
        · subst hsame
          rw [Pool.move_loc_self] at ht'
          obtain hold | rfl := phaseDelivery_step hstep ht'
          · exact .inl (.inr (.inl ⟨t', hold⟩))
          · exact .inr ⟨t', rfl⟩
        · rw [Pool.move_loc_ne _ _ _ hsame] at ht'
          exact .inl (.inr (.inl ⟨t', ht'⟩))
      · obtain hold | hphase := horphans command hcommand
        · exact .inl (.inr (.inr ⟨command, hold, hdelivery⟩))
        · exact .inl (.inr (.inl ⟨t, command_phase hphase hdelivery⟩))
  | inr event =>
      obtain ⟨s, hevent, rfl⟩ := Pool.step_env h
      obtain ⟨hremovals, horphans⟩ := redisEvent_called hevent
      left
      obtain ⟨r, hr, rfl⟩ | ⟨t', ht'⟩ | ⟨command, hcommand, hdelivery⟩ := hindex
      · obtain hold | horphan := hremovals r hr
        · exact .inl ⟨r, hold, rfl⟩
        · exact .inr (.inr horphan)
      · exact .inr (.inl ⟨t', ht'⟩)
      · exact .inr (.inr ⟨command, horphans hcommand, hdelivery⟩)

omit [DecidableEq C] [DecidableEq T] in
theorem redisCalled_init (index : Nat) : ¬ RedisCalled (RedisPool.init C T) index := by
  rintro (⟨r, hr, -⟩ | ⟨t, ht⟩ | ⟨command, hcommand, -⟩)
  · cases hr
  · cases ht
  · cases hcommand

theorem redis_keeps : DriverKeeps (redisDriver (C := C) (T := T) lease) RedisInv RedisCalled where
  marked _ _ := rfl
  injective t t' index index' h := by
    obtain ⟨-, h⟩ := Prod.mk.inj (Sum.inl.inj h)
    injection h
  kept p act q hp h := redisInv_step p act q hp h
  calls _ _ _ _ h hindex := redis_called h hindex
  grows _ _ _ _ _ h hx := redis_grows h hx

end Redis

section Rabbit

variable {C T : Type} [DecidableEq C] [DecidableEq T]

theorem rabbit_keeps : DriverKeeps (rabbitDriver (C := C) (T := T)) RabbitInv
    fun p index => index ∈ p.shared.calls where
  marked _ _ := rfl
  injective t t' index index' h := by
    obtain ⟨-, h⟩ := Prod.mk.inj (Sum.inl.inj h)
    injection h
  kept p act q hp h := rabbitInv_step p act q hp h
  calls _ _ _ _ h hindex := rabbit_calls h hindex
  grows _ _ _ _ _ h hx := rabbit_grows h hx

end Rabbit

section Queues

variable {C M P T D F I : Type} [DecidableEq C] [DecidableEq M] [DecidableEq P] [DecidableEq T]
  [DecidableEq I]

-- A job that left its queue is settled.
theorem job_settled (config : ExecutorConfig D) (home : Nat → I) :
    (∀ lease acts (f : Fleet (RedisPool C T) D F I T),
      run (fleetStep (redisDriver lease) config home) (.init (.init C T)) acts = some f →
      ∀ e ∈ f.queue.shared.server.stream.log, e ∈ f.queue.shared.server.stream.entries ∨
        JobSettled (redisDriver lease) config acts f e.id) ∧
    (∀ acts (f : Fleet (RabbitPool C T) D F I T),
      run (fleetStep rabbitDriver config home) (.init (.init C T)) acts = some f →
      ∀ id < f.queue.shared.broker.log.length, id ∈ f.queue.shared.broker.ready.map (·.id) ∨
        id ∈ f.queue.shared.broker.unacked.map (·.message.id) ∨
        JobSettled rabbitDriver config acts f id) ∧
    ∀ stored earliest acts (f : Fleet (KafkaPool M P T) D F I T),
      run (fleetStep kafkaDriver config home) (.init (.init M P T stored earliest)) acts = some f →
      ∀ partition, ∀ r ∈ f.queue.shared.log partition, (stored partition).getD (earliest partition) ≤ r.offset →
        startOffset f.queue.shared partition ≤ r.offset ∨
          JobSettled kafkaDriver config acts f (partition, r.offset) := by
  refine ⟨fun lease acts f h e he => ?_, fun acts f h id hid => ?_,
    fun stored earliest acts f h partition r hr hfirst => ?_⟩
  · obtain ⟨hi, hsettled⟩ := redis_keeps.settled redisInv_init redisCalled_init h
    by_cases hstays : e ∈ f.queue.shared.server.stream.entries
    · exact .inl hstays
    · right
      have hgone : e.id ∈ f.queue.shared.server.removals.map (·.identity) := by
        by_contra hno
        exact hstays (hi.server.entries_mem.mpr ⟨he, hno⟩)
      obtain ⟨r, hr, hrid⟩ := List.mem_map.mp hgone
      obtain ⟨x, hx, hdone⟩ := hsettled r.delivery (.inl ⟨r, hr, rfl⟩)
      obtain ⟨d, hd, rfl⟩ := redis_handed hx
      obtain ⟨d', hd', -, hidentity⟩ := hi.removals r hr
      obtain rfl := Option.some.inj (hd.symm.trans hd')
      exact ⟨r.delivery, _, hx, hidentity.trans hrid, hdone⟩
  · obtain ⟨hi, hsettled⟩ := rabbit_keeps.settled rabbitInv_init (fun _ => nofun) h
    have hok := hi.calls.1
    have hplaces : id ∈ f.queue.shared.broker.places :=
      hok.broker.accounted.mem_iff.mpr (List.mem_range.mpr hid)
    obtain hready | hrest := List.mem_append.mp hplaces
    · exact .inl hready
    · obtain hunacked | hacked := List.mem_append.mp hrest
      · exact .inr (.inl hunacked)
      · obtain ⟨y, hy, rfl⟩ := List.mem_map.mp hacked
        obtain ⟨index, hd, hcalled⟩ := hok.acked_delivery hy
        obtain ⟨x, hx, hdone⟩ := hsettled index hcalled
        obtain ⟨d, hd', rfl⟩ := rabbit_handed hx
        obtain rfl := Option.some.inj (hd'.symm.trans hd)
        exact .inr (.inr ⟨index, _, hx, rfl, hdone⟩)
  · have hok : Along (fleetStep kafkaDriver config home) (OnQueue fun _ _ => True)
        (.init (.init M P T stored earliest)) acts := by
      refine along_of_forall (fun f act => ?_) _ _
      cases act <;> trivial
    obtain ⟨hi, hsettled⟩ := settled_run kafka_sound
      ⟨kafkaInv_init stored earliest, kafkaOnce_init stored earliest⟩ (fun _ => nofun) hok h
    by_cases hlt : r.offset < startOffset f.queue.shared partition
    · obtain ⟨index, d, hd, rfl, hoffset, hcalled⟩ := (hi.1.starts partition).acknowledged r hr hfirst hlt
      obtain ⟨x, hx, hdone⟩ := hsettled index hcalled
      obtain ⟨d', hd', rfl⟩ := kafka_handed hx
      obtain rfl := Option.some.inj (hd'.symm.trans hd)
      exact .inr ⟨index, _, hx, Prod.ext rfl hoffset, hdone⟩
    · exact .inl (Nat.le_of_not_lt hlt)

end Queues

section Runs

abbrev KafkaFleet := Fleet (KafkaPool Unit Unit Nat) Nat Nat Unit Nat

abbrev kafkaFleetStep :
    KafkaFleet → FleetAct ((Nat × KafkaAct Unit Unit) ⊕ KafkaEvent Unit Unit) Nat Nat Nat → Option KafkaFleet :=
  fleetStep kafkaDriver (quotedPlace "main" "default") fun _ => ()

-- The handler of a record returns in time and its offset is committed.
def handledRecord : List (FleetAct ((Nat × KafkaAct Unit Unit) ⊕ KafkaEvent Unit Unit) Nat Nat Nat) :=
  [.queue (.inr (.produced () 0 (some [123]))), .queue (.inr (.assigned () [()])),
    .queue (.inl (0, .receive ())), .queue (.inl (0, .acquire)), .queue (.inl (0, .getone ())),
    .execute 0 (.execute ⟨[123], true⟩) 0, .execute 0 .get 0, .execute 0 .returns 0,
    .execute 0 (.resolve (.binding defaultPolicy)) 0, .execute 0 (.attemptEnds (.returned false)) 0,
    .execute 0 (.finish 8) 1, .queue (.inl (1, .execute)), .queue (.inl (1, .reply)),
    .execute 0 .acknowledged 1]

-- What the runs have acknowledged is gone from the queues: a failure that two consumers of Redis and of
-- RabbitMQ have seen, and a success.
theorem job_settled_acknowledged :
    (∃ f, run claimStep (.init (.init Nat Nat)) (failedOnce ++ claimedAgain) = some f ∧
      f.queue.shared.server.stream.entries = [] ∧
      JobSettled (redisDriver 5) (quotedPlace "main" "default") (failedOnce ++ claimedAgain) f 1) ∧
    (∃ f, run rabbitFleetStep (.init (.init Nat Nat))
        (failedMessage ++ sentAgain ++ [.queue (.inr (.process 1))]) = some f ∧
      JobSettled rabbitDriver (quotedPlace "main" "default")
        (failedMessage ++ sentAgain ++ [.queue (.inr (.process 1))]) f 0) ∧
    ∃ f, run kafkaFleetStep (.init (.init Unit Unit Nat (fun _ => none) fun _ => 0)) handledRecord = some f ∧
      f.queue.shared.committed () = some 1 ∧
      JobSettled kafkaDriver (quotedPlace "main" "default") handledRecord f ((), 0) := by
  obtain ⟨hredis, hrabbit, hkafka⟩ := job_settled (C := Nat) (M := Unit) (P := Unit) (T := Nat) (F := Nat)
    (quotedPlace "main" "default") fun _ => ()
  refine ⟨?_, ?_, ?_⟩
  · obtain ⟨f, hf, hlog, hentries⟩ : ∃ f, run claimStep (.init (.init Nat Nat))
        (failedOnce ++ claimedAgain) = some f ∧ f.queue.shared.server.stream.log = [⟨1, [123]⟩] ∧
        f.queue.shared.server.stream.entries = [] := ⟨_, rfl, rfl, rfl⟩
    have hsettled := hredis 5 _ f hf ⟨1, [123]⟩ (hlog ▸ List.mem_cons_self)
    rw [hentries] at hsettled
    exact ⟨f, hf, hentries, hsettled.resolve_left nofun⟩
  · obtain ⟨f, hf, hlog, hready, hunacked⟩ : ∃ f, run rabbitFleetStep (.init (.init Nat Nat))
        (failedMessage ++ sentAgain ++ [.queue (.inr (.process 1))]) = some f ∧
        f.queue.shared.broker.log.length = 1 ∧ f.queue.shared.broker.ready = [] ∧
        f.queue.shared.broker.unacked = [] := ⟨_, rfl, rfl, rfl, rfl⟩
    have hsettled := hrabbit _ f hf 0 (hlog ▸ Nat.zero_lt_one)
    rw [hready, hunacked] at hsettled
    exact ⟨f, hf, (hsettled.resolve_left nofun).resolve_left nofun⟩
  · obtain ⟨f, hf, hcommitted, hlog⟩ : ∃ f, run kafkaFleetStep
        (.init (.init Unit Unit Nat (fun _ => none) fun _ => 0)) handledRecord = some f ∧
        f.queue.shared.committed () = some 1 ∧ f.queue.shared.log () = [⟨0, some [123]⟩] :=
      ⟨_, rfl, rfl, rfl⟩
    have hsettled := hkafka (fun _ => none) (fun _ => 0) _ f hf () ⟨0, some [123]⟩
      (hlog ▸ List.mem_cons_self) (Nat.le_refl 0)
    refine ⟨f, hf, hcommitted, hsettled.resolve_left ?_⟩
    rw [startOffset, hcommitted]
    exact Nat.not_succ_le_zero 0

end Runs

end Scaffold.Worker
