import Scaffold.Amqp
import Scaffold.Pool
import Scaffold.Queue.Contracts

namespace Scaffold.Queue

open Amqp (Sent)

structure RabbitMessage where
  messageId : Option String := none
  body : Bytes
  deriving DecidableEq, Repr

-- A delivery, with the id of its message in the queue.
structure RabbitDelivery (C : Type) where
  source : C
  tag : Nat
  payload : Bytes
  identity : String
  possiblyRedelivered : Bool
  entry : Nat
  deriving DecidableEq, Repr

-- What a channel has written and the broker has not read.
inductive RabbitFrame where
  | ack (tag : Nat)
  | nack (tag : Nat)
  | close
  deriving DecidableEq, Repr

-- A consumer has a channel of its own. `buffer` is what the broker has sent and the iterator has not
-- returned, and `ended` the end of the iterator.
structure RabbitConsumer (C T : Type) where
  receiveLock : Option T := none
  closed : Bool := false
  buffer : List (Sent C RabbitMessage) := []
  ended : Bool := false
  frames : List RabbitFrame := []

-- One queue, its consumers, and the publisher of one backend with its lock. `present` is the queue
-- being declared on the broker, `orphans` are messages whose publisher waits no longer and that the
-- broker may still take, and `calls` the deliveries for which `acknowledge` was called, also again.
structure RabbitShared (C T : Type) where
  broker : Amqp.Queue C RabbitMessage := {}
  present : Bool := false
  consumers : C → RabbitConsumer C T := fun _ => {}
  deliveries : List (RabbitDelivery C) := []
  calls : List Nat := []
  declared : Bool := false
  lock : Option T := none
  orphans : List Bytes := []

inductive RabbitError where
  | queueError (message : String)
  | raised
  deriving DecidableEq, Repr

-- The await at which a call is.
inductive RabbitPhase (C : Type) where
  | idle
  | receiveLock (c : C)
  | getting (c : C)
  | acking (delivery : Nat) (sent : Bool)
  | cancelling (c : C)
  | closing (c : C) (sent failed : Bool)
  | publishLock (payload : Bytes)
  | declaring (payload : Bytes) (reply : Bool)
  | publishing (payload : Bytes) (confirm : Option Nat)
  | received (delivery : Nat)
  | acknowledged (delivery : Nat)
  | closed (c : C)
  | published (payload : Bytes) (id : Nat)
  | raised (error : RabbitError)

-- `execute` is a request on its way: a frame that is written, or what the broker has taken. `ended`
-- is the end of the iterator, and `raises` an exception or a cancellation at the await.
inductive RabbitAct (C : Type) where
  | receive (c : C)
  | acknowledge (delivery : Nat)
  | aclose (c : C)
  | publish (payload : Bytes)
  | acquire
  | next
  | ended
  | execute
  | reply
  | raises

-- `process` is the broker that reads a frame and `lost` the end of a channel without one. `cancels`
-- is the iterator that closes itself, and `ends` the iterator that learns that its channel is closed.
inductive RabbitEvent (C : Type) where
  | published (message : RabbitMessage)
  | orphan (index : Nat)
  | consumer (c : C) (concurrency : Nat)
  | deliver (c : C) (position : Nat)
  | process (c : C)
  | lost (c : C)
  | cancels (c : C)
  | ends (c : C)

section Rabbit

variable {C T : Type} [DecidableEq C] [DecidableEq T]

abbrev RabbitNext (C T : Type) := RabbitShared C T × RabbitPhase C

def setRabbitConsumer (s : RabbitShared C T) (c : C) (consumer : RabbitConsumer C T) : RabbitShared C T :=
  { s with consumers := Function.update s.consumers c consumer }

-- Leaving the `async with` blocks of the two locks.
def releaseRabbit (s : RabbitShared C T) (t : T) : RabbitShared C T :=
  { s with
    lock := if s.lock = some t then none else s.lock
    consumers := fun c =>
      let consumer := s.consumers c
      { consumer with
        receiveLock := if consumer.receiveLock = some t then none else consumer.receiveLock } }

def raiseRabbit (s : RabbitShared C T) (t : T) (error : RabbitError) : RabbitNext C T :=
  (releaseRabbit s t, .raised error)

def rabbitIdentity (messageId : Option String) (tag : Nat) : String :=
  match messageId with
  | none => "delivery:" ++ toString tag
  | some id => if id = "" then "delivery:" ++ toString tag else id

def rabbitDelivery (x : Sent C RabbitMessage) : RabbitDelivery C where
  source := x.channel
  tag := x.tag
  payload := x.message.payload.body
  identity := rabbitIdentity x.message.payload.messageId x.tag
  possiblyRedelivered := x.message.redelivered
  entry := x.message.id

-- `receive` after the iterator has returned a message.
def handOut (s : RabbitShared C T) (t : T) (c : C) (x : Sent C RabbitMessage)
    (rest : List (Sent C RabbitMessage)) : RabbitNext C T :=
  let next := setRabbitConsumer s c { s.consumers c with buffer := rest }
  (releaseRabbit { next with deliveries := s.deliveries ++ [rabbitDelivery x] } t,
    .received s.deliveries.length)

-- The iterator cancels its subscription and gives back what it has not returned.
def closeIterator (s : RabbitShared C T) (c : C) : RabbitShared C T :=
  let consumer := s.consumers c
  setRabbitConsumer s c { consumer with
    buffer := []
    ended := true
    frames := consumer.frames ++ consumer.buffer.map fun x => .nack x.tag }

def writeFrame (s : RabbitShared C T) (c : C) (frame : RabbitFrame) : RabbitShared C T :=
  let consumer := s.consumers c
  setRabbitConsumer s c { consumer with frames := consumer.frames ++ [frame] }

def acquireRabbit (s : RabbitShared C T) (t : T) : RabbitPhase C → Option (RabbitNext C T)
  | .receiveLock c =>
      let consumer := s.consumers c
      if consumer.receiveLock = none then
        if consumer.closed then some (raiseRabbit s t (.queueError "RabbitMQ 消费者已关闭"))
        else some (setRabbitConsumer s c { consumer with receiveLock := some t }, .getting c)
      else none
  | .publishLock payload =>
      if s.lock = none then
        if s.declared then some (s, .publishing payload none)
        else some ({ s with lock := some t }, .declaring payload false)
      else none
  | _ => none

def publishMessage (s : RabbitShared C T) (message : RabbitMessage) : RabbitShared C T :=
  { s with broker := s.broker.publish message }

-- The message is `mandatory`: without the queue the broker gives it back, and the client raises.
def executeRabbit (s : RabbitShared C T) (t : T) : RabbitPhase C → Option (RabbitNext C T)
  | .acking index false =>
      match s.deliveries[index]? with
      | none => none
      | some delivery => some (writeFrame s delivery.source (.ack delivery.tag), .acking index true)
  | .cancelling c => some (closeIterator s c, .closing c false false)
  | .closing c false failed => some (writeFrame s c .close, .closing c true failed)
  | .declaring payload false => some ({ s with present := true }, .declaring payload true)
  | .publishing payload none =>
      if s.present then
        some (publishMessage s { body := payload }, .publishing payload (some s.broker.log.length))
      else some (raiseRabbit s t .raised)
  | _ => none

def replyRabbit (s : RabbitShared C T) (t : T) : RabbitPhase C → Option (RabbitNext C T)
  | .acking index true => some (s, .acknowledged index)
  | .closing c true failed => if failed then some (raiseRabbit s t .raised) else some (s, .closed c)
  | .declaring payload true => some (releaseRabbit { s with declared := true } t, .publishing payload none)
  | .publishing payload (some id) => some (s, .published payload id)
  | _ => none

def raiseAtAwait (s : RabbitShared C T) (t : T) : RabbitPhase C → Option (RabbitNext C T)
  | .receiveLock _ => some (raiseRabbit s t .raised)
  | .getting _ => some (raiseRabbit s t .raised)
  | .acking _ _ => some (raiseRabbit s t .raised)
  -- `finally`: the channel is closed in any case
  | .cancelling c => some (s, .closing c false true)
  | .closing _ _ _ => some (raiseRabbit s t .raised)
  | .publishLock _ => some (raiseRabbit s t .raised)
  | .declaring _ _ => some (raiseRabbit s t .raised)
  | .publishing payload none => some (raiseRabbit { s with orphans := s.orphans ++ [payload] } t .raised)
  | .publishing _ (some _) => some (raiseRabbit s t .raised)
  | _ => none

def rabbitStep (t : T) (s : RabbitShared C T) (l : RabbitPhase C) : RabbitAct C → Option (RabbitNext C T)
  | .receive c =>
      match l with
      | .idle => some (s, .receiveLock c)
      | _ => none
  | .acknowledge index =>
      match l with
      | .idle =>
          if index < s.deliveries.length then
            some ({ s with calls := s.calls ++ [index] }, .acking index false)
          else none
      | _ => none
  | .aclose c =>
      match l with
      | .idle => some (setRabbitConsumer s c { s.consumers c with closed := true }, .cancelling c)
      | _ => none
  | .publish payload =>
      match l with
      | .idle => some (s, .publishLock payload)
      | _ => none
  | .acquire => acquireRabbit s t l
  | .next =>
      match l with
      | .getting c =>
          match (s.consumers c).buffer with
          | [] => none
          | x :: rest => some (handOut s t c x rest)
      | _ => none
  | .ended =>
      match l with
      | .getting c =>
          if (s.consumers c).ended then some (raiseRabbit s t (.queueError "RabbitMQ 消费流已结束"))
          else none
      | _ => none
  | .execute => executeRabbit s t l
  | .reply => replyRabbit s t l
  | .raises => raiseAtAwait s t l

def runFrame (broker : Amqp.Queue C RabbitMessage) (c : C) : RabbitFrame → Amqp.Queue C RabbitMessage
  | .ack tag => broker.ack c tag
  | .nack tag => broker.nack c tag
  | .close => broker.close c

def rabbitEvent (s : RabbitShared C T) : RabbitEvent C → Option (RabbitShared C T)
  | .published message => if s.present then some (publishMessage s message) else none
  | .orphan index =>
      match s.orphans[index]? with
      | none => none
      | some payload =>
          let next := if s.present then publishMessage s { body := payload } else s
          some { next with orphans := s.orphans.eraseIdx index }
  | .consumer c concurrency =>
      (s.broker.consume c concurrency).map fun broker => { s with broker := broker, present := true }
  | .deliver c position =>
      match s.broker.deliver c position with
      | none => none
      | some (broker, x) =>
          let consumer := s.consumers c
          some { setRabbitConsumer s c { consumer with buffer := consumer.buffer ++ [x] } with
            broker := broker }
  | .process c =>
      match (s.consumers c).frames with
      | [] => none
      | frame :: rest =>
          if s.broker.closed c then none
          else
            some { setRabbitConsumer s c { s.consumers c with frames := rest } with
              broker := runFrame s.broker c frame }
  | .lost c => some { s with broker := s.broker.close c }
  | .cancels c => some (closeIterator s c)
  | .ends c => some (setRabbitConsumer s c { s.consumers c with ended := true })

abbrev RabbitPool (C T : Type) := Pool T (RabbitShared C T) (RabbitPhase C)

abbrev rabbitPoolStep : RabbitPool C T → (T × RabbitAct C) ⊕ RabbitEvent C → Option (RabbitPool C T) :=
  Pool.step rabbitStep rabbitEvent

def RabbitPool.init (C T : Type) : RabbitPool C T where
  shared := {}
  loc _ := .idle

end Rabbit

end Scaffold.Queue
