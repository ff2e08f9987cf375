import Scaffold.Pool
import Scaffold.Redis.Key

namespace Scaffold.Users

open Decimal
open Redis (StringKey)

-- The settings of the limiter; the constructor refuses other values.
structure LoginLimiter where
  maxFailures : Nat
  failureWindowSeconds : Nat
  lockSeconds : Nat
  failures : 0 < maxFailures := by decide
  window : 0 < failureWindowSeconds := by decide
  lock : 0 < lockSeconds := by decide

structure LoginFailureStatus where
  remainingAttempts : Nat
  retryAfterSeconds : Option Nat := none
  consistent : match retryAfterSeconds with
    | none => remainingAttempts ≠ 0
    | some seconds => 0 < seconds ∧ remainingAttempts = 0
  deriving DecidableEq

inductive LimiterError where
  | countText
  | countDigits (digits : Nat)
  | countNotPositive
  | missingTtl
  | incrementResult
  | expireResult
  | clearResult
  | errorReply (message : String)
  deriving DecidableEq, Repr

def LimiterError.text : LimiterError → String
  | .countText => "登录失败计数不是有效的正整数"
  | .countDigits digits => "Exceeds the limit (4300 digits) for integer string conversion: value has " ++
      toString digits ++ " digits; use sys.set_int_max_str_digits() to increase the limit"
  | .countNotPositive => "登录失败计数不是有效的正整数"
  | .missingTtl => "登录失败计数缺少过期时间"
  | .incrementResult => "Redis 返回了无效的登录失败计数"
  | .expireResult => "登录失败计数过期时间更新未生效"
  | .clearResult => "Redis 返回了无效的登录计数清理结果"
  | .errorReply message => message

inductive ScriptReply where
  | integer (value : Int)
  | error (message : String)
  deriving DecidableEq, Repr

-- `increment_with_ttl.lua`: the increment and the first deadline.
def incrementWithTtl (now seconds : Nat) (key : Option StringKey) : Option StringKey × ScriptReply :=
  match Redis.incr now key with
  | (next, none) => (next, .error "increment or decrement would overflow")
  | (next, some value) =>
      if value = 1 then ((Redis.expire now seconds next).1, .integer value)
      else (next, .integer value)

def maximum : Text := "9223372036854775807".toList

-- `delete_below.lua`.
def deleteBelow (now : Nat) (threshold : Text) (key : Option StringKey) : Option StringKey × ScriptReply :=
  if ¬ isPositiveDecimal threshold then (key, .error "invalid counter threshold")
  else
    match Redis.get now key with
    | none => (key, .integer 0)
    | some raw =>
        if ¬ isPositiveDecimal raw ∨ textBelow maximum raw then
          (key, .error "invalid counter state")
        else if textBelow raw threshold then
          ((Redis.del now key).1, .integer (Redis.del now key).2)
        else (key, .integer 0)

-- `int` refuses a text of more digits.
def maxDigits : Nat := 4300

def decodeCount (value : Text) : Except LimiterError Nat :=
  if value = [] ∨ ¬ value.all Char.isDigit then .error .countText
  else if maxDigits < value.length then .error (.countDigits value.length)
  else if Nat.ofDigitChars 10 value 0 ≤ 0 then .error .countNotPositive
  else .ok (Nat.ofDigitChars 10 value 0)

inductive LimiterCall where
  | retryAfter
  | recordFailure
  | clear
  deriving DecidableEq, Repr

-- An increment: the lifetime of the key that it belongs to and its place in it.
structure Counted where
  lifetime : Nat
  ordinal : Nat
  deriving DecidableEq, Repr

structure Answer where
  counted : Counted
  status : LoginFailureStatus

-- `lifetime` counts the lifetimes of the key and `increments` the increments of the last one;
-- `answers` are the results of `record_failure`.
structure LimiterShared where
  now : Nat := 0
  key : Option StringKey := none
  lifetime : Nat := 0
  increments : Nat := 0
  answers : List Answer := []

-- The await at which a call is, with the reply of its command if it has been executed.
inductive LimiterPhase where
  | idle
  | get (reply : Option (Option Text))
  | ttl (reply : Option Int)
  | increment (reply : Option (Except String (Int × Counted)))
  | expire (counted : Counted) (reply : Option Bool)
  | deleteBelow (reply : Option ScriptReply)
  | retryAfter (result : Option Int)
  | recorded (status : LoginFailureStatus)
  | cleared
  | raised (call : LimiterCall) (error : LimiterError)

inductive LimiterAct where
  | call (call : LimiterCall)
  | execute
  | reply
  deriving DecidableEq, Repr

-- `drop` is the removal of a key whose deadline has come.
inductive LimiterEvent where
  | tick (elapsed : Nat)
  | drop
  deriving DecidableEq, Repr

abbrev LimiterNext := LimiterShared × LimiterPhase

def LimiterPhase.done : LimiterPhase → Bool
  | .idle => true
  | .retryAfter _ => true
  | .recorded _ => true
  | .cleared => true
  | .raised _ _ => true
  | _ => false

def firstAwait : LimiterCall → LimiterPhase
  | .retryAfter => .get none
  | .recordFailure => .increment none
  | .clear => .deleteBelow none

section Limiter

variable {T : Type} [DecidableEq T] (limiter : LoginLimiter)

-- An increment that finds no key begins a lifetime.
def countIncrement (s : LimiterShared) : LimiterShared × Except String (Int × Counted) :=
  let (key, reply) := incrementWithTtl s.now limiter.failureWindowSeconds s.key
  match reply with
  | .error message => ({ s with key := key }, .error message)
  | .integer count =>
      match Redis.live s.now s.key with
      | none =>
          ({ s with key := key, lifetime := s.lifetime + 1, increments := 1 },
            .ok (count, ⟨s.lifetime + 1, 1⟩))
      | some _ =>
          ({ s with key := key, increments := s.increments + 1 },
            .ok (count, ⟨s.lifetime, s.increments + 1⟩))

-- One command on the server. A client that has lost the reply may send its command again.
def executeCommand (s : LimiterShared) : LimiterPhase → Option LimiterNext
  | .get _ => some (s, .get (some (Redis.get s.now s.key)))
  | .ttl _ => some (s, .ttl (some (Redis.ttl s.now s.key)))
  | .increment _ =>
      let (next, reply) := countIncrement limiter s
      some (next, .increment (some reply))
  | .expire counted _ =>
      let (key, applied) := Redis.expire s.now limiter.lockSeconds s.key
      some ({ s with key := key }, .expire counted (some applied))
  | .deleteBelow _ =>
      let (key, reply) := deleteBelow s.now (decimal limiter.maxFailures) s.key
      some ({ s with key := key }, .deleteBelow (some reply))
  | _ => none

def readCount (raw : Option Text) : LimiterPhase :=
  match raw with
  | none => .retryAfter none
  | some value =>
      match decodeCount value with
      | .error error => .raised .retryAfter error
      | .ok count => if count < limiter.maxFailures then .retryAfter none else .ttl none

def readTtl (ttl : Int) : LimiterPhase :=
  if ttl = -2 then .retryAfter none
  else if ttl = -1 then .raised .retryAfter .missingTtl
  else .retryAfter (some (max 1 ttl))

def answer (s : LimiterShared) (counted : Counted) (status : LoginFailureStatus) : LimiterNext :=
  ({ s with answers := s.answers ++ [⟨counted, status⟩] }, .recorded status)

def remaining (count : Nat) (h : count < limiter.maxFailures) : LoginFailureStatus where
  remainingAttempts := limiter.maxFailures - count
  consistent := Nat.sub_ne_zero_of_lt h

def locked : LoginFailureStatus where
  remainingAttempts := 0
  retryAfterSeconds := some limiter.lockSeconds
  consistent := ⟨limiter.lock, rfl⟩

def recordCount (s : LimiterShared) : Except String (Int × Counted) → LimiterNext
  | .error message => (s, .raised .recordFailure (.errorReply message))
  | .ok (count, counted) =>
      if count ≤ 0 then (s, .raised .recordFailure .incrementResult)
      else if h : count.toNat < limiter.maxFailures then answer s counted (remaining limiter count.toNat h)
      else (s, .expire counted none)

def processClear : ScriptReply → LimiterPhase
  | .error message => .raised .clear (.errorReply message)
  | .integer result => if result = 0 ∨ result = 1 then .cleared else .raised .clear .clearResult

-- What a call does with the reply of its command.
def processReply (s : LimiterShared) : LimiterPhase → Option LimiterNext
  | .get (some raw) => some (s, readCount limiter raw)
  | .ttl (some ttl) => some (s, readTtl ttl)
  | .increment (some reply) => some (recordCount limiter s reply)
  | .expire counted (some applied) =>
      if applied then some (answer s counted (locked limiter))
      else some (s, .raised .recordFailure .expireResult)
  | .deleteBelow (some reply) => some (s, processClear reply)
  | _ => none

def limiterStep (_ : T) (s : LimiterShared) (l : LimiterPhase) : LimiterAct → Option LimiterNext
  | .call call => if l.done then some (s, firstAwait call) else none
  | .execute => executeCommand limiter s l
  | .reply => processReply limiter s l

def limiterEvent (s : LimiterShared) : LimiterEvent → Option LimiterShared
  | .tick elapsed => some { s with now := s.now + elapsed }
  | .drop =>
      match s.key with
      | none => none
      | some key => if key.deadline.any (· ≤ s.now) then some { s with key := none } else none

abbrev LimiterPool (T : Type) := Pool T LimiterShared LimiterPhase

abbrev limiterPoolStep : LimiterPool T → (T × LimiterAct) ⊕ LimiterEvent → Option (LimiterPool T) :=
  Pool.step (limiterStep limiter) limiterEvent

def LimiterPool.init (T : Type) : LimiterPool T where
  shared := {}
  loc _ := .idle

end Limiter

end Scaffold.Users
