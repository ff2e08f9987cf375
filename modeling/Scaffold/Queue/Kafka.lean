import Scaffold.Pool
import Scaffold.Queue.Contracts

namespace Scaffold.Queue

-- A record of a partition. The offsets of a log grow and may have gaps.
structure KafkaRecord where
  offset : Nat
  value : Option Bytes
  deriving DecidableEq, Repr

-- An offset commit, with the group generation of the member that sent it.
structure KafkaCommit (P : Type) where
  partition : P
  offset : Nat
  group : Nat
  deriving DecidableEq, Repr

-- A delivery, with the group generation of the assignment that it was read under.
structure KafkaDelivery (M P : Type) where
  source : M
  partition : P
  offset : Nat
  payload : Bytes
  generation : Nat
  possiblyRedelivered : Bool
  settled : Bool := false
  group : Nat
  deriving DecidableEq, Repr

-- The consumer and its client. `pending` maps partitions to deliveries; a partition is assigned to
-- the client while it has a position, and `joined` is the group generation of the assignment.
structure KafkaConsumer (P T : Type) where
  pending : List (P × Nat) := []
  trustedPartitions : P → Bool := fun _ => false
  generation : Nat := 0
  closed : Bool := false
  lock : Option T := none
  joined : Option Nat := none
  stopped : Bool := false
  position : P → Option Nat := fun _ => none
  paused : P → Bool := fun _ => false

-- `holder` is the member that reads a partition and `heldIn` the generation in which it got it.
-- `orphans` are the commits whose caller waits no longer and that the broker may still receive, and
-- `acknowledges` the deliveries for which a commit was sent.
structure KafkaShared (M P T : Type) where
  log : P → List KafkaRecord := fun _ => []
  committed : P → Option Nat
  earliest : P → Nat
  group : Nat := 0
  holder : P → Option M := fun _ => none
  heldIn : P → Option Nat := fun _ => none
  orphans : List (KafkaCommit P) := []
  consumers : M → KafkaConsumer P T := fun _ => {}
  deliveries : List (KafkaDelivery M P) := []
  acknowledges : List Nat := []

inductive KafkaError where
  | deliveryLost
  | queueClosed
  | raised
  deriving DecidableEq, Repr

-- The await at which a call is; a commit that was sent has its reply, or none yet.
inductive KafkaPhase (M P : Type) where
  | idle
  | receiveLock (m : M)
  | getting (m : M)
  | committing (m : M) (delivery : Nat) (commit : KafkaCommit P) (reply : Option Bool)
  | received (delivery : Nat)
  | acknowledged (delivery : Nat)
  | raised (error : KafkaError)

-- `getone` is a record that the client returns, `resend` a request or an answer that got lost and that
-- the client repeats, and `raises` an exception or a cancellation at the await.
inductive KafkaAct (M P : Type) where
  | receive (m : M)
  | acknowledge (delivery : Nat)
  | acquire
  | getone (partition : P)
  | execute
  | resend
  | reply
  | raises

-- `rebalance` is the broker's step to the next generation of the group, `revoked` and `assigned`
-- are the callbacks of the members, and `stop` is the end of a client, also by a crash.
inductive KafkaEvent (M P : Type) where
  | produced (partition : P) (offset : Nat) (value : Option Bytes)
  | orphan (index : Nat)
  | rebalance
  | revoked (m : M)
  | assigned (m : M) (partitions : List P)
  | aclose (m : M)
  | stop (m : M)

section Kafka

variable {M P T : Type} [DecidableEq M] [DecidableEq P] [DecidableEq T]

abbrev KafkaNext (M P T : Type) := KafkaShared M P T × KafkaPhase M P

def setKafkaConsumer (s : KafkaShared M P T) (m : M) (consumer : KafkaConsumer P T) : KafkaShared M P T :=
  { s with consumers := Function.update s.consumers m consumer }

-- Leaving the `async with` block of the lock.
def releaseLock (s : KafkaShared M P T) (t : T) : KafkaShared M P T :=
  { s with consumers := fun m =>
      let consumer := s.consumers m
      { consumer with lock := if consumer.lock = some t then none else consumer.lock } }

def raiseKafka (s : KafkaShared M P T) (t : T) (error : KafkaError) : KafkaNext M P T :=
  (releaseLock s t, .raised error)

-- Where a member begins to read: `auto_offset_reset="earliest"`.
def startOffset (s : KafkaShared M P T) (partition : P) : Nat :=
  (s.committed partition).getD (s.earliest partition)

-- The broker refuses a commit of another generation than the current one.
def commitOffset (s : KafkaShared M P T) (commit : KafkaCommit P) : KafkaShared M P T × Bool :=
  if commit.group = s.group then
    ({ s with committed := Function.update s.committed commit.partition (some commit.offset) }, true)
  else (s, false)

-- `receive` after `getone` has returned. The client is past the record already.
def takeRecord (s : KafkaShared M P T) (t : T) (m : M) (partition : P) (record : KafkaRecord)
    (group : Nat) :
    KafkaNext M P T :=
  let consumer := s.consumers m
  let read := { consumer with position := Function.update consumer.position partition (some (record.offset + 1)) }
  if consumer.pending.any (·.1 = partition) then raiseKafka (setKafkaConsumer s m read) t .deliveryLost
  else
    let index := s.deliveries.length
    let next := setKafkaConsumer s m { read with
      paused := Function.update consumer.paused partition true
      pending := consumer.pending ++ [(partition, index)] }
    (releaseLock { next with deliveries := s.deliveries ++ [{
      source := m
      partition := partition
      offset := record.offset
      payload := record.value.getD []
      generation := consumer.generation
      possiblyRedelivered := !consumer.trustedPartitions partition
      group := group }] } t, .received index)

-- The first record from the client's position on, if the partition is assigned and not paused.
def nextRecord (s : KafkaShared M P T) (m : M) (partition : P) : Option KafkaRecord :=
  match (s.consumers m).position partition with
  | none => none
  | some position =>
      if (s.consumers m).paused partition then none
      else (s.log partition).find? (position ≤ ·.offset)

-- `acknowledge` after the commit has returned.
def settleKafka (s : KafkaShared M P T) (m : M) (index : Nat) (partition : P) : KafkaNext M P T :=
  let consumer := s.consumers m
  let next := setKafkaConsumer s m { consumer with
    pending := consumer.pending.filter (·.1 ≠ partition)
    trustedPartitions := Function.update consumer.trustedPartitions partition true
    paused := Function.update consumer.paused partition false }
  ({ next with deliveries := s.deliveries.modify index fun x => { x with settled := true } },
    .acknowledged index)

-- `acknowledge` up to the commit.
def callCommit (s : KafkaShared M P T) (index : Nat) (delivery : KafkaDelivery M P) : KafkaNext M P T :=
  let consumer := s.consumers delivery.source
  if delivery.settled ∨ consumer.closed ∨ delivery.generation ≠ consumer.generation then
    (s, .raised .deliveryLost)
  else
    match consumer.joined with
    | none => (s, .raised .raised)
    | some group =>
        ({ s with acknowledges := s.acknowledges ++ [index] },
          .committing delivery.source index ⟨delivery.partition, delivery.offset + 1, group⟩ none)

def kafkaReply (s : KafkaShared M P T) (m : M) (index : Nat) (committed : Bool) :
    Option (KafkaNext M P T) :=
  match s.deliveries[index]? with
  | none => none
  | some delivery =>
      if ¬ committed then some (s, .raised .raised)
      else if delivery.generation ≠ (s.consumers m).generation then some (s, .raised .deliveryLost)
      else some (settleKafka s m index delivery.partition)

-- The commit that a call has sent and that the broker has not received.
def KafkaPhase.request : KafkaPhase M P → Option (KafkaCommit P)
  | .committing _ _ commit none => some commit
  | _ => none

def kafkaStep (t : T) (s : KafkaShared M P T) (l : KafkaPhase M P) : KafkaAct M P → Option (KafkaNext M P T)
  | .receive m =>
      match l with
      | .idle => some (s, .receiveLock m)
      | _ => none
  | .acknowledge index =>
      match l, s.deliveries[index]? with
      | .idle, some delivery => some (callCommit s index delivery)
      | _, _ => none
  | .acquire =>
      match l with
      | .receiveLock m =>
          let consumer := s.consumers m
          if consumer.lock = none then
            if consumer.closed then some (s, .raised .queueClosed)
            else some (setKafkaConsumer s m { consumer with lock := some t }, .getting m)
          else none
      | _ => none
  | .getone partition =>
      match l with
      | .getting m =>
          match nextRecord s m partition, (s.consumers m).joined with
          | some record, some group => some (takeRecord s t m partition record group)
          | _, _ => none
      | _ => none
  | .execute =>
      match l with
      | .committing m index commit none =>
          let (next, committed) := commitOffset s commit
          some (next, .committing m index commit (some committed))
      | _ => none
  | .resend =>
      match l with
      | .committing m index commit _ => some (s, .committing m index commit none)
      | _ => none
  | .reply =>
      match l with
      | .committing m index _ (some committed) => kafkaReply s m index committed
      | _ => none
  | .raises =>
      match l with
      | .receiveLock _ => some (raiseKafka s t .raised)
      | .getting _ => some (raiseKafka s t .raised)
      | .committing _ _ _ _ =>
          some (raiseKafka { s with orphans := s.orphans ++ l.request.toList } t .raised)
      | _ => none

-- `on_partitions_revoked`, called with all partitions of the member. The executions it cancels
-- raise at their awaits.
def onPartitionsRevoked (consumer : KafkaConsumer P T) : KafkaConsumer P T :=
  { consumer with
    generation := consumer.generation + 1
    trustedPartitions := fun p => consumer.trustedPartitions p && (consumer.position p).isNone
    pending := []
    joined := none
    position := fun _ => none }

-- `on_partitions_assigned`.
def onPartitionsAssigned (s : KafkaShared M P T) (consumer : KafkaConsumer P T) (partitions : List P) :
    KafkaConsumer P T :=
  { consumer with
    trustedPartitions := fun p => consumer.trustedPartitions p && p ∉ partitions
    joined := some s.group
    position := fun p => if p ∈ partitions then some (startOffset s p) else none
    paused := fun p => consumer.paused p && p ∉ partitions }

def release (s : KafkaShared M P T) (m : M) : KafkaShared M P T :=
  { s with holder := fun p => if s.holder p = some m then none else s.holder p }

def kafkaEvent (s : KafkaShared M P T) : KafkaEvent M P → Option (KafkaShared M P T)
  | .produced partition offset value =>
      if (s.log partition).all (·.offset < offset) then
        some { s with log := Function.update s.log partition (s.log partition ++ [⟨offset, value⟩]) }
      else none
  | .orphan index =>
      match s.orphans[index]? with
      | none => none
      | some commit => some { (commitOffset s commit).1 with orphans := s.orphans.eraseIdx index }
  | .rebalance => some { s with group := s.group + 1 }
  | .revoked m =>
      if (s.consumers m).stopped then none
      else some (release (setKafkaConsumer s m (onPartitionsRevoked (s.consumers m))) m)
  | .assigned m partitions =>
      let consumer := s.consumers m
      if consumer.stopped ∨ consumer.joined.isSome then none
      else if partitions.all fun p => s.holder p = none ∧ s.heldIn p ≠ some s.group then
        some { setKafkaConsumer s m (onPartitionsAssigned s consumer partitions) with
          holder := fun p => if p ∈ partitions then some m else s.holder p
          heldIn := fun p => if p ∈ partitions then some s.group else s.heldIn p }
      else none
  | .aclose m => some (setKafkaConsumer s m { s.consumers m with closed := true })
  | .stop m =>
      some (release (setKafkaConsumer s m { s.consumers m with
        stopped := true, joined := none, position := fun _ => none }) m)

abbrev KafkaPool (M P T : Type) := Pool T (KafkaShared M P T) (KafkaPhase M P)

abbrev kafkaPoolStep : KafkaPool M P T → (T × KafkaAct M P) ⊕ KafkaEvent M P → Option (KafkaPool M P T) :=
  Pool.step kafkaStep kafkaEvent

def KafkaPool.init (M P T : Type) (stored : P → Option Nat) (earliest : P → Nat) : KafkaPool M P T where
  shared := { committed := stored, earliest }
  loc _ := .idle

end Kafka

end Scaffold.Queue
