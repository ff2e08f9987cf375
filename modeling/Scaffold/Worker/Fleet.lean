import Mathlib.Data.Set.Function
import Scaffold.Queue.Kafka
import Scaffold.Queue.Redis
import Scaffold.Worker.Executor

namespace Scaffold.Worker

open Queue

-- The workers of one queue: their consumers, the executions of their deliveries, and the store.

-- A delivery, with the entry of the stream or of the partition that it carries.
structure Handed (K : Type) where
  entry : K
  delivery : Delivery
  deriving DecidableEq, Repr

-- A queue as an executor sees it. `handed` are the deliveries that `receive` has returned,
-- `acknowledge` is the beginning of such a call, and `returned` and `raised` are its ends.
structure Driver (K S A T : Type) where
  step : S → A → Option S
  handed : S → List (Handed K)
  published : S → K → Bytes → Prop
  acknowledge : T → Nat → A
  isAcknowledge : A → Bool
  returned : S → T → Bool
  raised : S → T → Bool

section Drivers

variable {C M P T : Type} [DecidableEq C] [DecidableEq M] [DecidableEq P] [DecidableEq T]

def redisDriver (lease : Nat) : Driver Nat (RedisPool C T) ((T × RedisAct C) ⊕ RedisEvent C) T where
  step := redisPoolStep lease
  handed p := p.shared.deliveries.map fun d => ⟨d.identity, ⟨d.payload, d.possiblyRedelivered⟩⟩
  published p id payload := ⟨id, payload⟩ ∈ p.shared.server.stream.log
  acknowledge t index := .inl (t, .acknowledge index)
  isAcknowledge
    | .inl (_, .acknowledge _) => true
    | _ => false
  returned p t :=
    match p.loc t with
    | .acknowledged _ => true
    | _ => false
  raised p t :=
    match p.loc t with
    | .raised _ => true
    | _ => false

def kafkaDriver : Driver (P × Nat) (KafkaPool M P T) ((T × KafkaAct M P) ⊕ KafkaEvent M P) T where
  step := kafkaPoolStep
  handed p := p.shared.deliveries.map fun d => ⟨(d.partition, d.offset), ⟨d.payload, d.possiblyRedelivered⟩⟩
  published p entry payload :=
    ∃ record ∈ p.shared.log entry.1, record.offset = entry.2 ∧ payload = record.value.getD []
  acknowledge t index := .inl (t, .acknowledge index)
  isAcknowledge
    | .inl (_, .acknowledge _) => true
    | _ => false
  returned p t :=
    match p.loc t with
    | .acknowledged _ => true
    | _ => false
  raised p t :=
    match p.loc t with
    | .raised _ => true
    | _ => false

end Drivers

-- An execution has the index of its delivery. `calls` are the calls of `acknowledge`; `saved` and
-- `foreign` are histories: the records that executions have committed, and the names behind the ids
-- of the records that others have saved.
structure Fleet (S D F I T : Type) where
  queue : S
  executions : ExecPool D F I Nat := .init D F I Nat
  calls : List (Nat × T) := []
  saved : List (Nat × FailedJobRecord D F) := []
  foreign : List String := []

-- `call` is the call of `acknowledge` that an execution begins or waits for. `save` is an execution
-- of another connection or queue, and `delete` the console.
inductive FleetAct (A D F T : Type) where
  | queue (act : A)
  | execute (index : Nat) (act : ExecAct D F) (call : T)
  | save (connection queue identity : String) (record : FailedJobRecord D F)
  | delete (failureId : Uuid)

section Fleet

variable {K S A D F I T : Type} [DecidableEq I] [DecidableEq T]

-- The row that a step of an execution adds to the table.
def addedRow (l : Execution D F) (s s' : FailureStore D F I Nat) : Option (FailedJobRecord D F) :=
  match l.phase with
  | .inserting _ record =>
      if (s.records record.failureId).isNone ∧
        (s'.records record.failureId).isSome then some record else none
  | _ => none

variable (driver : Driver K S A T) (config : ExecutorConfig D) (home : Nat → I)

-- A delivery is executed as it was received, and an execution waits for its own `acknowledge`.
def allowed (f : Fleet S D F I T) (index : Nat) (call : T) : ExecAct D F → Bool
  | .execute delivery => (driver.handed f.queue)[index]?.map (·.delivery) = some delivery
  | .acknowledged => (index, call) ∈ f.calls ∧ driver.returned f.queue call
  | .raises _ =>
      match (f.executions.loc index).phase with
      | .acknowledging _ => (index, call) ∈ f.calls ∧ driver.raised f.queue call
      | _ => true
  | _ => true

def fleetExecute (f : Fleet S D F I T) (index : Nat) (act : ExecAct D F) (call : T) :
    Option (Fleet S D F I T) :=
  match execPoolStep config home f.executions (.inl (index, act)) with
  | none => none
  | some executions =>
      let row := addedRow (f.executions.loc index) f.executions.shared executions.shared
      let next := { f with
        executions := executions
        saved := f.saved ++ (row.map fun record => (index, record)).toList }
      if (executions.loc index).acknowledges = (f.executions.loc index).acknowledges then some next
      else
        (driver.step f.queue (driver.acknowledge call index)).map fun queue =>
          { next with queue := queue, calls := f.calls ++ [(index, call)] }

def fleetStep (f : Fleet S D F I T) : FleetAct A D F T → Option (Fleet S D F I T)
  | .queue act =>
      if driver.isAcknowledge act then none
      else (driver.step f.queue act).map fun queue => { f with queue := queue }
  | .execute index act call =>
      if allowed driver f index call act then fleetExecute driver config home f index act call else none
  | .save connection queue identity record =>
      if connection = config.connection ∧ queue = config.queue then none
      else
        let name := failureText config.printable connection queue identity
        let event := StoreEvent.save { record with failureId := config.uuid5 name }
        (execPoolStep config home f.executions (.inr event)).map fun executions =>
          { f with executions := executions, foreign := f.foreign ++ [name] }
  | .delete id =>
      (execPoolStep config home f.executions (.inr (.delete id))).map fun executions =>
        { f with executions := executions }

def Fleet.init (queue : S) : Fleet S D F I T where
  queue := queue

-- A condition on the steps of the queue.
def OnQueue (ok : S → A → Prop) (f : Fleet S D F I T) : FleetAct A D F T → Prop
  | .queue act => ok f.queue act
  | _ => True

omit [DecidableEq I] [DecidableEq T] in
instance {ok : S → A → Prop} [∀ s act, Decidable (ok s act)] (f : Fleet S D F I T) :
    ∀ act : FleetAct A D F T, Decidable (OnQueue ok f act)
  | .queue act => inferInstanceAs (Decidable (ok f.queue act))
  | .execute _ _ _ => isTrue trivial
  | .save _ _ _ _ => isTrue trivial
  | .delete _ => isTrue trivial

-- The text behind the failure id of a delivery.
def failureName (x : Handed K) : String :=
  failureText config.printable config.connection config.queue (identity config (received config x.delivery))

-- No two of the names that were hashed have the same id.
def DistinctIds (f : Fleet S D F I T) : Prop :=
  Set.InjOn config.uuid5 {name | name ∈ (driver.handed f.queue).map (failureName config) ∨ name ∈ f.foreign}

-- No two published envelopes have the same job id.
def DistinctJobs (queue : S) : Prop :=
  ∀ entry entry' payload payload' message message', driver.published queue entry payload →
    driver.published queue entry' payload' → config.decode payload = .ok message →
    config.decode payload' = .ok message' → message.jobId = message'.jobId → entry = entry'

end Fleet

-- The execution has not called the resolver and has not gone on from its look-up but to `acknowledge`.
def OnlyAcknowledges {D F : Type} (l : Execution D F) : Prop :=
  l.resolved = false ∧ l.last = none ∧
    match l.phase with
    | .idle => True
    | .finding _ => True
    | .found _ (some _) => True
    | .acknowledging _ => True
    | .done _ _ => True
    | _ => False

end Scaffold.Worker
