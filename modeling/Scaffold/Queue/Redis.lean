import Scaffold.Pool
import Scaffold.Queue.Contracts
import Scaffold.Redis.Stream

namespace Scaffold.Queue

open Redis (StreamGroup StreamEntry)

-- A run of the ack script that removed an entry: the consumer and the delivery that issued it and
-- the call that waits for its reply, if one still does.
structure Removal (C T : Type) where
  identity : Nat
  consumer : C
  delivery : Nat
  issuer : Option T
  deriving DecidableEq

structure RedisServer (C T : Type) where
  stream : StreamGroup C Bytes := {}
  removals : List (Removal C T) := []

-- A delivery, with the position of its entry in the history of grants.
structure RedisDelivery (C : Type) where
  consumer : C
  identity : Nat
  payload : Bytes
  possiblyRedelivered : Bool
  settled : Bool := false
  grant : Nat
  deriving DecidableEq

-- `pending` maps identities to deliveries; `renewalFailed` is a finished renewal task.
structure RedisConsumer (T : Type) where
  pending : List (Nat × Nat) := []
  lock : Option T := none
  receiveLock : Option T := none
  cursor : Nat := 0
  closed : Bool := false
  renewalFailed : Bool := false

inductive RedisCommand (C : Type) where
  | xautoclaim (c : C) (cursor : Nat)
  | xreadgroup (c : C)
  | ownedAck (c : C) (delivery identity : Nat)
  | ownedRenewBatch (c : C) (identities : List Nat)

inductive RedisReply where
  | claimed (cursor : Nat) (entry : Option (StreamEntry Bytes)) (grant : Nat)
  | read (entry : Option (StreamEntry Bytes)) (grant : Nat)
  | acked (result : Nat)
  | renewed (owned : Bool)

inductive RedisError where
  | deliveryLost
  | queueClosed
  | raised
  deriving DecidableEq, Repr

-- The await at which a call is; a call that has sent a command has its reply, or none yet.
inductive RedisPhase (C : Type) where
  | idle
  | receiveLock (c : C)
  | claiming (c : C) (cursor : Nat) (reply : Option RedisReply)
  | reading (c : C) (reply : Option RedisReply)
  | ackLock (c : C) (delivery identity : Nat)
  | acking (c : C) (delivery identity : Nat) (reply : Option RedisReply)
  | renewLock (c : C)
  | renewing (c : C) (identities : List Nat) (reply : Option RedisReply)
  | received (delivery : Nat)
  | acknowledged (delivery : Nat)
  | renewed
  | raised (error : RedisError)

-- `orphans` are the commands whose caller waits no longer and that the server may still execute.
structure RedisShared (C T : Type) where
  server : RedisServer C T := {}
  orphans : List (RedisCommand C) := []
  consumers : C → RedisConsumer T := fun _ => {}
  deliveries : List (RedisDelivery C) := []

-- `resend` is a lost reply after which the client repeats the command, and `raises` an exception
-- or a cancellation at the await. A crashed consumer is one whose calls take no step any more.
inductive RedisAct (C : Type) where
  | receive (c : C)
  | acknowledge (delivery : Nat)
  | renew (c : C)
  | acquire
  | execute
  | resend
  | reply
  | raises

inductive RedisEvent (C : Type) where
  | publish (payload : Bytes)
  | tick (elapsed : Nat)
  | orphan (index : Nat)
  | aclose (c : C)

section Redis

variable {C T : Type} [DecidableEq C] [DecidableEq T] (lease : Nat)

def owns (s : StreamGroup C Bytes) (c : C) (identity : Nat) : Bool :=
  match s.xpending identity with
  | none => false
  | some p => p.owner = c

-- The script `_OWNED_ACK`.
def ownedAck (s : RedisServer C T) (issuer : Option T) (c : C) (delivery identity : Nat) :
    RedisServer C T × Nat :=
  if owns s.stream c identity then
    let (acked, acknowledged) := s.stream.xack identity
    if acknowledged then
      ({ stream := acked.xdel identity, removals := s.removals ++ [⟨identity, c, delivery, issuer⟩] }, 1)
    else ({ s with stream := acked }, 0)
  else (s, 0)

-- The script `_OWNED_RENEW_BATCH`.
def ownedRenewBatch (s : RedisServer C T) (c : C) (identities : List Nat) : RedisServer C T × Bool :=
  if identities.all (owns s.stream c) then
    ({ s with stream := identities.foldl (fun stream identity => stream.xclaim c identity) s.stream }, true)
  else (s, false)

def runCommand (s : RedisServer C T) (issuer : Option T) : RedisCommand C → RedisServer C T × RedisReply
  | .xautoclaim c cursor =>
      let (stream, next, entry) := s.stream.xautoclaim c lease cursor
      ({ s with stream := stream }, .claimed next entry s.stream.grants.length)
  | .xreadgroup c =>
      let (stream, entry) := s.stream.xreadgroup c
      ({ s with stream := stream }, .read entry s.stream.grants.length)
  | .ownedAck c delivery identity =>
      let (next, result) := ownedAck s issuer c delivery identity
      (next, .acked result)
  | .ownedRenewBatch c identities =>
      let (next, owned) := ownedRenewBatch s c identities
      (next, .renewed owned)

-- The command that a call has sent and that has not been executed.
def RedisPhase.command : RedisPhase C → Option (RedisCommand C)
  | .claiming c cursor none => some (.xautoclaim c cursor)
  | .reading c none => some (.xreadgroup c)
  | .acking c delivery identity none => some (.ownedAck c delivery identity)
  | .renewing c identities none => some (.ownedRenewBatch c identities)
  | _ => none

def RedisPhase.withReply (reply : Option RedisReply) : RedisPhase C → RedisPhase C
  | .claiming c cursor _ => .claiming c cursor reply
  | .reading c _ => .reading c reply
  | .acking c delivery identity _ => .acking c delivery identity reply
  | .renewing c identities _ => .renewing c identities reply
  | phase => phase

abbrev RedisNext (C T : Type) := RedisShared C T × RedisPhase C

def setConsumer (s : RedisShared C T) (c : C) (consumer : RedisConsumer T) : RedisShared C T :=
  { s with consumers := Function.update s.consumers c consumer }

-- Leaving the `async with` blocks of the two locks.
def releaseLocks (s : RedisShared C T) (t : T) : RedisShared C T :=
  { s with consumers := fun c =>
      let consumer := s.consumers c
      { consumer with
        lock := if consumer.lock = some t then none else consumer.lock
        receiveLock := if consumer.receiveLock = some t then none else consumer.receiveLock } }

def raiseRedis (s : RedisShared C T) (t : T) (error : RedisError) : RedisNext C T :=
  (releaseLocks s t, .raised error)

-- The head of the loop of `receive`.
def receiveLoop (s : RedisShared C T) (t : T) (c : C) : RedisNext C T :=
  if (s.consumers c).closed then raiseRedis s t .queueClosed
  else if (s.consumers c).renewalFailed then raiseRedis s t .raised
  else (s, .claiming c (s.consumers c).cursor none)

def deliver (s : RedisShared C T) (t : T) (c : C) (entry : StreamEntry Bytes) (grant : Nat)
    (redelivered : Bool) :
    RedisNext C T :=
  let consumer := s.consumers c
  if consumer.pending.any (·.1 = entry.id) then raiseRedis s t .deliveryLost
  else
    let index := s.deliveries.length
    let next := setConsumer s c { consumer with pending := consumer.pending ++ [(entry.id, index)] }
    (releaseLocks { next with deliveries := s.deliveries ++ [{
      consumer := c
      identity := entry.id
      payload := entry.payload
      possiblyRedelivered := redelivered
      grant := grant }] } t, .received index)

def settle (s : RedisShared C T) (t : T) (c : C) (delivery identity : Nat) : RedisNext C T :=
  let consumer := s.consumers c
  let next := setConsumer s c { consumer with pending := consumer.pending.filter (·.1 ≠ identity) }
  (releaseLocks { next with
    deliveries := s.deliveries.modify delivery fun x => { x with settled := true } } t,
      .acknowledged delivery)

def failRenewal (s : RedisShared C T) (t : T) (c : C) (error : RedisError) : RedisNext C T :=
  raiseRedis (setConsumer s c { s.consumers c with renewalFailed := true }) t error

-- What a call does with the reply of its command.
def processReply (s : RedisShared C T) (t : T) : RedisPhase C → Option (RedisNext C T)
  | .claiming c _ (some (.claimed cursor entry grant)) =>
      let next := setConsumer s c { s.consumers c with cursor := cursor }
      match entry with
      | some entry => some (deliver next t c entry grant true)
      | none => some (next, .reading c none)
  | .reading c (some (.read entry grant)) =>
      match entry with
      | some entry => some (deliver s t c entry grant false)
      | none => some (receiveLoop s t c)
  | .acking c delivery identity (some (.acked result)) =>
      if result = 1 then some (settle s t c delivery identity) else some (raiseRedis s t .deliveryLost)
  | .renewing c _ (some (.renewed owned)) =>
      if owned then some (releaseLocks s t, .renewed) else some (failRenewal s t c .deliveryLost)
  | _ => none

def acquireLock (s : RedisShared C T) (t : T) : RedisPhase C → Option (RedisNext C T)
  | .receiveLock c =>
      let consumer := s.consumers c
      if consumer.receiveLock = none then
        some (receiveLoop (setConsumer s c { consumer with receiveLock := some t }) t c)
      else none
  | .ackLock c delivery identity =>
      let consumer := s.consumers c
      if consumer.lock = none then
        some (setConsumer s c { consumer with lock := some t }, .acking c delivery identity none)
      else none
  | .renewLock c =>
      let consumer := s.consumers c
      if consumer.lock = none then
        if consumer.pending.isEmpty then some (s, .renewed)
        else
          some (setConsumer s c { consumer with lock := some t },
            .renewing c (consumer.pending.map (·.1)) none)
      else none
  | _ => none

def raiseAwait (s : RedisShared C T) (t : T) (l : RedisPhase C) : Option (RedisNext C T) :=
  let sent := { s with orphans := s.orphans ++ l.command.toList }
  match l with
  | .receiveLock _ => some (raiseRedis sent t .raised)
  | .claiming _ _ _ => some (raiseRedis sent t .raised)
  | .reading _ _ => some (raiseRedis sent t .raised)
  | .ackLock _ _ _ => some (raiseRedis sent t .raised)
  | .acking _ _ _ _ => some (raiseRedis sent t .raised)
  | .renewLock c => some (failRenewal sent t c .raised)
  | .renewing c _ _ => some (failRenewal sent t c .raised)
  | _ => none

def redisStep (t : T) (s : RedisShared C T) (l : RedisPhase C) : RedisAct C → Option (RedisNext C T)
  | .receive c =>
      match l with
      | .idle => some (s, .receiveLock c)
      | _ => none
  | .acknowledge index =>
      match l, s.deliveries[index]? with
      | .idle, some delivery =>
          if delivery.settled ∨ (s.consumers delivery.consumer).closed then
            some (s, .raised .deliveryLost)
          else some (s, .ackLock delivery.consumer index delivery.identity)
      | _, _ => none
  | .renew c =>
      match l with
      | .idle => some (s, .renewLock c)
      | _ => none
  | .acquire => acquireLock s t l
  | .execute =>
      match l.command with
      | none => none
      | some command =>
          let (server, reply) := runCommand lease s.server (some t) command
          some ({ s with server := server }, l.withReply (some reply))
  | .resend =>
      match l with
      | .claiming _ _ _ => some ({ s with orphans := s.orphans ++ l.command.toList }, l.withReply none)
      | .reading _ _ => some ({ s with orphans := s.orphans ++ l.command.toList }, l.withReply none)
      | .acking _ _ _ _ => some ({ s with orphans := s.orphans ++ l.command.toList }, l.withReply none)
      | .renewing _ _ _ => some ({ s with orphans := s.orphans ++ l.command.toList }, l.withReply none)
      | _ => none
  | .reply => processReply s t l
  | .raises => raiseAwait s t l

def redisEvent (s : RedisShared C T) : RedisEvent C → Option (RedisShared C T)
  | .publish payload =>
      some { s with server := { s.server with stream := s.server.stream.xadd payload } }
  | .tick elapsed =>
      some { s with server := { s.server with
        stream := { s.server.stream with now := s.server.stream.now + elapsed } } }
  | .orphan index =>
      match s.orphans[index]? with
      | none => none
      | some command =>
          some { s with
            server := (runCommand lease s.server none command).1
            orphans := s.orphans.eraseIdx index }
  | .aclose c => some (setConsumer s c { s.consumers c with closed := true })

abbrev RedisPool (C T : Type) := Pool T (RedisShared C T) (RedisPhase C)

abbrev redisPoolStep : RedisPool C T → (T × RedisAct C) ⊕ RedisEvent C → Option (RedisPool C T) :=
  Pool.step (redisStep lease) (redisEvent lease)

def RedisPool.init (C T : Type) : RedisPool C T where
  shared := {}
  loc _ := .idle

end Redis

end Scaffold.Queue
