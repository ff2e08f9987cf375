import Mathlib.Data.List.Nodup
import Mathlib.Data.List.Perm.Basic
import Mathlib.Logic.Function.Basic

namespace Scaffold.Amqp

-- A queue of a message broker and the channels that consume it with acknowledgements. Ids are the
-- positions of the messages in the order of their publication.
structure Message (P : Type*) where
  id : Nat
  payload : P
  redelivered : Bool := false
  deriving DecidableEq, Repr

-- A message that was sent to a channel under a tag.
structure Sent (Ch P : Type*) where
  channel : Ch
  tag : Nat
  message : Message P
  deriving DecidableEq, Repr

-- `log`, `sent` and `acked` are histories: what was published, sent and acknowledged. A channel that
-- consumes has a limit for its messages without acknowledgement, where 0 stands for none.
structure Queue (Ch P : Type*) where
  ready : List (Message P) := []
  unacked : List (Sent Ch P) := []
  log : List P := []
  sent : List (Sent Ch P) := []
  acked : List (Sent Ch P) := []
  tags : Ch → Nat := fun _ => 0
  limit : Ch → Option Nat := fun _ => none
  closed : Ch → Bool := fun _ => false

section Queue

variable {Ch P : Type*} [DecidableEq Ch] (s : Queue Ch P)

def Queue.publish (payload : P) : Queue Ch P :=
  { s with ready := s.ready ++ [⟨s.log.length, payload, false⟩], log := s.log ++ [payload] }

def Queue.held (ch : Ch) : List (Sent Ch P) :=
  s.unacked.filter (·.channel = ch)

def Queue.consume (ch : Ch) (limit : Nat) : Option (Queue Ch P) :=
  if s.closed ch = false ∧ s.limit ch = none then
    some { s with limit := Function.update s.limit ch (some limit) }
  else none

def Queue.hasCredit (ch : Ch) : Bool :=
  match s.limit ch with
  | none => false
  | some limit => limit = 0 ∨ (s.held ch).length < limit

-- Sending any of the ready messages: what was put back does not keep to one order.
def Queue.deliver (ch : Ch) (position : Nat) : Option (Queue Ch P × Sent Ch P) :=
  if s.closed ch = false ∧ s.hasCredit ch = true then
    match s.ready[position]? with
    | none => none
    | some message =>
        let sent : Sent Ch P := ⟨ch, s.tags ch + 1, message⟩
        some ({ s with
          ready := s.ready.eraseIdx position
          unacked := s.unacked ++ [sent]
          sent := s.sent ++ [sent]
          tags := Function.update s.tags ch (s.tags ch + 1) }, sent)
  else none

def Sent.again (x : Sent Ch P) : Message P :=
  { x.message with redelivered := true }

-- Messages without acknowledgement go back and are marked.
def Queue.requeue (back : Sent Ch P → Bool) : Queue Ch P :=
  { s with
    ready := s.ready ++ (s.unacked.filter back).map Sent.again
    unacked := s.unacked.filter (!back ·) }

def Queue.close (ch : Ch) : Queue Ch P :=
  { s.requeue (·.channel = ch) with closed := Function.update s.closed ch true }

def isTagged (ch : Ch) (tag : Nat) (x : Sent Ch P) : Bool :=
  x.channel = ch ∧ x.tag = tag

-- An unknown tag is an error that closes the channel.
def Queue.ack (ch : Ch) (tag : Nat) : Queue Ch P :=
  match s.unacked.find? (isTagged ch tag) with
  | none => s.close ch
  | some x => { s with unacked := s.unacked.filter (!isTagged ch tag ·), acked := s.acked ++ [x] }

def Queue.nack (ch : Ch) (tag : Nat) : Queue Ch P :=
  match s.unacked.find? (isTagged ch tag) with
  | none => s.close ch
  | some _ => s.requeue (isTagged ch tag)

end Queue

end Scaffold.Amqp
