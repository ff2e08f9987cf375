import Scaffold.Queue.Rabbit.Redelivery
import Scaffold.Worker.Fleet.Theorems

namespace Scaffold.Worker

open Machine Queue

section Driver

variable {C T : Type} [DecidableEq C] [DecidableEq T] {p q : RabbitPool C T}

def rabbitDriver : Driver Nat (RabbitPool C T) ((T × RabbitAct C) ⊕ RabbitEvent C) T where
  step := rabbitPoolStep
  handed p := p.shared.deliveries.map fun d => ⟨d.entry, ⟨d.payload, d.possiblyRedelivered⟩⟩
  published p id payload :=
    ∃ message, p.shared.broker.log[id]? = some message ∧ payload = message.body
  acknowledge t index := .inl (t, .acknowledge index)
  isAcknowledge
    | .inl (_, .acknowledge _) => true
    | _ => false
  returned p t :=
    match p.loc t with
    | .acknowledged _ => true
    | _ => false
  raised p t :=
    match p.loc t with
    | .raised _ => true
    | _ => false

def rabbitHanded (d : RabbitDelivery C) : Handed Nat := ⟨d.entry, ⟨d.payload, d.possiblyRedelivered⟩⟩

theorem rabbit_handed {index : Nat} {x : Handed Nat} (h : (rabbitDriver.handed p)[index]? = some x) :
    ∃ d, p.shared.deliveries[index]? = some d ∧ rabbitHanded d = x :=
  Option.map_eq_some_iff.mp ((List.getElem?_map ..).symm.trans h)

theorem handed_rabbit {index : Nat} {d : RabbitDelivery C} (h : p.shared.deliveries[index]? = some d) :
    (rabbitDriver.handed p)[index]? = some (rabbitHanded d) :=
  (List.getElem?_map ..).trans (congrArg (Option.map rabbitHanded) h)

theorem rabbit_grows {act : (T × RabbitAct C) ⊕ RabbitEvent C}
    (h : rabbitPoolStep p act = some q) {index : Nat} {x : Handed Nat}
    (hx : (rabbitDriver.handed p)[index]? = some x) : (rabbitDriver.handed q)[index]? = some x := by
  obtain ⟨d, hd, rfl⟩ := rabbit_handed hx
  refine handed_rabbit ?_
  obtain hsame | ⟨t, c, y, rest, -, -, -, hnew⟩ := rabbitPool_deliveries h
  · rw [hsame]
    exact hd
  · rw [hnew]
    exact (Ledger.getElem?_concat _ _ _ _).mpr (.inl hd)

theorem rabbit_calls {act : (T × RabbitAct C) ⊕ RabbitEvent C}
    (h : rabbitPoolStep p act = some q) {index : Nat} (hindex : index ∈ q.shared.calls) :
    index ∈ p.shared.calls ∨ ∃ t, act = .inl (t, .acknowledge index) := by
  cases act with
  | inl act =>
      obtain ⟨t, act⟩ := act
      obtain ⟨s, l, hstep, rfl⟩ := Pool.step_task h
      obtain hold | rfl := (rabbitStep_effect hstep).calls hindex
      · exact .inl hold
      · exact .inr ⟨t, rfl⟩
  | inr event =>
      obtain ⟨s, hevent, rfl⟩ := Pool.step_env h
      exact .inl ((rabbitEvent_deliveries hevent).2 ▸ hindex)

theorem rabbit_published (hp : RabbitInv p) {x : Handed Nat} (hx : x ∈ rabbitDriver.handed p) :
    (rabbitDriver (C := C) (T := T)).published p x.entry x.delivery.payload := by
  obtain ⟨d, hd, rfl⟩ := List.mem_map.mp hx
  obtain ⟨y, hy, rfl⟩ := hp.calls.1.deliveries d hd
  exact ⟨_, hp.calls.1.broker.sent y hy, rfl⟩

theorem rabbit_sound : DriverSound (rabbitDriver : Driver Nat (RabbitPool C T) _ T) FreshChannels
    (fun p => RabbitInv p ∧ RabbitFirst p) fun _ _ => False where
  marked _ _ := rfl
  injective t t' index index' h := by
    obtain ⟨-, h⟩ := Prod.mk.inj (Sum.inl.inj h)
    injection h
  admits _ _ _ := trivial
  kept p act q hp hfresh _ h := ⟨rabbitInv_step p act q hp.1 h, rabbitFirst_step hp.1 hp.2 hfresh h⟩
  calls _ _ _ _ _ h := h.elim
  grows _ _ _ _ _ _ h hx := rabbit_grows h hx
  flags p i j x y hp hij hx hy hentry := by
    obtain ⟨d, hd, rfl⟩ := rabbit_handed hx
    obtain ⟨e, he, rfl⟩ := rabbit_handed hy
    exact hp.2 i j d e hij hd he hentry
  published p hp x hx := rabbit_published hp.1 hx

end Driver

section Recorded

variable {C T D F I : Type} [DecidableEq C] [DecidableEq T] [DecidableEq I]

theorem rabbit_failure_not_executed {config : ExecutorConfig D} {home : Nat → I}
    {acts : List (FleetAct ((T × RabbitAct C) ⊕ RabbitEvent C) D F T)} {f : Fleet (RabbitPool C T) D F I T}
    (h : run (fleetStep rabbitDriver config home) (.init (.init C T)) acts = some f)
    (hfresh : Along (fleetStep rabbitDriver config home) (OnQueue FreshChannels) (.init (.init C T)) acts)
    (hjobs : DistinctJobs rabbitDriver config f.queue) (hids : DistinctIds rabbitDriver config f) :
    FailuresKept rabbitDriver config home (.init C T) acts f :=
  failuresKept_run rabbit_sound ⟨rabbitInv_init, fun _ _ _ _ _ => nofun⟩ (fun _ hcalled => hcalled)
    hfresh h hjobs hids

end Recorded

section Redelivered

abbrev RabbitFleetAct := FleetAct ((Nat × RabbitAct Nat) ⊕ RabbitEvent Nat) Nat Nat Nat

abbrev RabbitFleet := Fleet (RabbitPool Nat Nat) Nat Nat Unit Nat

abbrev rabbitFleetStep : RabbitFleet → RabbitFleetAct → Option RabbitFleet :=
  fleetStep rabbitDriver (quotedPlace "main" "default") fun _ => ()

theorem default_attempted : 1 ≤ 3 := by decide

theorem default_backoff : ∀ delay ∈ ([1, 5] : List Rat), 0 ≤ delay := by decide

theorem default_timeout : (0 : Rat) < 30 := by decide

def defaultPolicy : JobPolicy where
  maxAttempts := 3
  backoffSeconds := [1, 5]
  timeoutSeconds := 30
  attempted := default_attempted
  backoff := default_backoff
  timeout := default_timeout

-- The handler of a message fails and the record is saved.
def failedMessage : List RabbitFleetAct :=
  [.queue (.inr (.consumer 0 1)), .queue (.inr (.published { body := [123] })), .queue (.inr (.deliver 0 0)),
    .queue (.inl (0, .receive 0)), .queue (.inl (0, .acquire)), .queue (.inl (0, .next)),
    .execute 0 (.execute ⟨[123], false⟩) 0, .execute 0 (.resolve (.binding defaultPolicy)) 0,
    .execute 0 (.attemptEnds (.exception ⟨"ValueError", []⟩)) 0, .execute 0 (.finish 8) 0,
    .execute 0 .acquire 0, .execute 0 .commit 0]

-- Its acknowledgement returns and is lost with the channel, and another consumer gets the message.
def sentAgain : List RabbitFleetAct :=
  [.execute 0 .returns 1, .queue (.inl (1, .execute)), .queue (.inl (1, .reply)), .execute 0 .acknowledged 1,
    .queue (.inr (.lost 0)), .queue (.inr (.consumer 1 1)), .queue (.inr (.deliver 1 0)),
    .queue (.inl (2, .receive 1)), .queue (.inl (2, .acquire)), .queue (.inl (2, .next)),
    .execute 1 (.execute ⟨[123], true⟩) 1, .execute 1 .get 1, .execute 1 .returns 3,
    .queue (.inl (3, .execute)), .queue (.inl (3, .reply)), .execute 1 .acknowledged 3]

theorem rabbit_failure_not_executed_again :
    ∃ f, run rabbitFleetStep (.init (.init Nat Nat)) (failedMessage ++ sentAgain) = some f ∧
      (f.executions.loc 0).acknowledges = 1 ∧ (f.executions.loc 1).acknowledges = 1 ∧
      OnlyAcknowledges (f.executions.loc 1) := by
  let config := quotedPlace "main" "default"
  obtain ⟨g, hg, hlength, hrow⟩ : ∃ g, run rabbitFleetStep (.init (.init Nat Nat)) failedMessage = some g ∧
      (rabbitDriver.handed g.queue).length = 1 ∧
      (g.executions.shared.records (failureId config (received config ⟨[123], true⟩))).isSome = true :=
    ⟨_, rfl, rfl, rfl⟩
  obtain ⟨f, hf, hlog, hhanded, hforeign, hacks, hacks'⟩ :
      ∃ f, run rabbitFleetStep (.init (.init Nat Nat)) (failedMessage ++ sentAgain) = some f ∧
        f.queue.shared.broker.log = [{ body := [123] }] ∧
        rabbitDriver.handed f.queue = [⟨0, ⟨[123], false⟩⟩, ⟨0, ⟨[123], true⟩⟩] ∧ f.foreign = [] ∧
        (f.executions.loc 0).acknowledges = 1 ∧ (f.executions.loc 1).acknowledges = 1 :=
    ⟨_, rfl, rfl, rfl, rfl, rfl, rfl⟩
  have hfresh : Along rabbitFleetStep (OnQueue FreshChannels) (.init (.init Nat Nat))
    (failedMessage ++ sentAgain) := by
    decide +kernel
  have hpublished : ∀ entry payload, rabbitDriver.published f.queue entry payload → entry = 0 := by
    rintro entry payload ⟨message, hmessage, -⟩
    have hlt := (List.getElem?_eq_some_iff.mp hmessage).1
    rw [hlog] at hlt
    exact Nat.lt_one_iff.mp hlt
  have hjobs : DistinctJobs rabbitDriver config f.queue := by
    intro entry entry' payload payload' _ _ h h' _ _ _
    rw [hpublished entry payload h, hpublished entry' payload' h']
  have hname : ∀ name, name ∈ (rabbitDriver.handed f.queue).map (failureName config) ∨ name ∈ f.foreign →
      name = failureName config (⟨0, ⟨[123], false⟩⟩ : Handed Nat) := by
    rw [hhanded, hforeign]
    rintro name (h | h)
    · obtain rfl | h := List.mem_cons.mp h
      · rfl
      · exact List.mem_singleton.mp h
    · cases h
  have hids : DistinctIds rabbitDriver config f := by
    intro name h name' h' _
    rw [hname name h, hname name' h']
  have hkept := rabbit_failure_not_executed hf hfresh hjobs hids
  have hdelete : ∀ id, .delete id ∉ sentAgain := by simp [sentAgain]
  refine ⟨f, hf, hacks, hacks',
    hkept.again failedMessage sentAgain g 1 ⟨0, ⟨[123], true⟩⟩ _ rfl hg ?_ ?_ rfl hrow (hdelete _)⟩
  · rw [hhanded]
    rfl
  · exact Nat.le_of_eq hlength

end Redelivered

end Scaffold.Worker
