import Scaffold.Machine
import Scaffold.Redis.Key

namespace Scaffold.RateLimit

open Decimal
open Redis (StringKey)

-- The constructor refuses other values.
structure FixedWindowLimiter where
  maxRequests : Nat
  windowSeconds : Nat
  requests : 1 ≤ maxRequests ∧ maxRequests ≤ 1000000 := by decide
  window : 1 ≤ windowSeconds ∧ windowSeconds ≤ 86400 := by decide
  deriving DecidableEq

structure RateLimitDecision where
  allowed : Bool
  retryAfterSeconds : Int := 0
  deriving DecidableEq, Repr

-- The causes of a `RateLimitUnavailableError`.
inductive CacheOperationError where
  | invalidState
  | errorReply (message : String)
  deriving DecidableEq, Repr

def CacheOperationError.text : CacheOperationError → String
  | .invalidState => "Redis 返回了无效的配额状态"
  | .errorReply message => message

-- `tonumber` on the numerals that INCR and SET write here. They are whole numbers, so the
-- comparison of the count with its floor is left out below.
def tonumber (text : Text) : Option Nat :=
  if text ≠ [] ∧ text.all Char.isDigit then some (Nat.ofDigitChars 10 text 0) else none

-- `acquire_window.lua`.
def acquireWindow (now limit windowMs : Nat) (key : Option StringKey) :
    Option StringKey × Except String (Int × Int) :=
  match Redis.get now key with
  | none => (Redis.setPx now (decimal 1) windowMs, .ok (1, 0))
  | some raw =>
      match tonumber raw with
      | none => (key, .error "invalid rate limit state")
      | some count =>
          let ttl := Redis.pttl now key
          if count < 1 ∨ ttl < 0 then (key, .error "invalid rate limit state")
          else if limit ≤ count then (key, .ok (0, ttl))
          else
            match Redis.incr now key with
            | (next, none) => (next, .error "increment or decrement would overflow")
            | (next, some _) => (next, .ok (1, 0))

section Acquire

variable (sha256 : String → String)

def windowKey (limiter : FixedWindowLimiter) (identity : String) : Text :=
  "rate-limit:http:ip:".toList ++ decimal limiter.maxRequests ++ ':' ::
    (decimal limiter.windowSeconds ++ ':' :: (sha256 identity).toList)

def parseResult (limiter : FixedWindowLimiter) (allowed ttl : Int) :
    Except CacheOperationError (Bool × Int) :=
  if ¬ (allowed = 0 ∨ allowed = 1) ∨ ¬ (0 ≤ ttl ∧ ttl ≤ limiter.windowSeconds * 1000) then
    .error .invalidState
  else if allowed = 1 ∧ ttl ≠ 0 then .error .invalidState
  else .ok (allowed = 1, ttl)

def decision (allowed : Bool) (retryAfterMs : Int) : RateLimitDecision where
  allowed := allowed
  retryAfterSeconds := if allowed then 0 else max 1 ((retryAfterMs + 999) / 1000)

-- `acquire` with the reply of its script.
def acquireResult (limiter : FixedWindowLimiter) :
    Except String (Int × Int) → Except CacheOperationError RateLimitDecision
  | .error message => .error (.errorReply message)
  | .ok (allowed, ttl) =>
      match parseResult limiter allowed ttl with
      | .error error => .error error
      | .ok (allowed, ttl) => .ok (decision allowed ttl)

structure Request where
  time : Nat
  limiter : FixedWindowLimiter
  identity : String

structure LogEntry where
  request : Request
  outcome : Except CacheOperationError RateLimitDecision

structure RateState where
  now : Nat := 0
  keys : Text → Option StringKey := fun _ => none
  log : List LogEntry := []

-- The script of a request runs at its time, which is not before the time of the last one.
def rateStep (s : RateState) (r : Request) : Option RateState :=
  if s.now ≤ r.time then
    let key := windowKey sha256 r.limiter r.identity
    let (next, reply) :=
      acquireWindow r.time r.limiter.maxRequests (r.limiter.windowSeconds * 1000) (s.keys key)
    some {
      now := r.time
      keys := Function.update s.keys key next
      log := s.log ++ [⟨r, acquireResult r.limiter reply⟩] }
  else none

end Acquire

-- The requests under one policy by one identity.
def Request.under (limiter : FixedWindowLimiter) (identity : String) (r : Request) : Bool :=
  r.limiter = limiter ∧ r.identity = identity

def LogEntry.allowed (e : LogEntry) : Bool :=
  match e.outcome with
  | .ok decision => decision.allowed
  | .error _ => false

-- The times of the admitted requests.
def admitted (log : List LogEntry) (limiter : FixedWindowLimiter) (identity : String) : List Nat :=
  (log.filter fun e => e.request.under limiter identity && e.allowed).map (·.request.time)

-- A division of the admissions into windows of `ms` milliseconds: each is opened by its first
-- admission, and no window begins before the last one has ended.
structure Windows (ms limit : Nat) (times : List Nat) (windows : List (List Nat)) : Prop where
  flat : windows.flatten = times
  opened : ∀ w ∈ windows, ∃ o rest, w = o :: rest ∧ ∀ t ∈ w, o ≤ t ∧ t ≤ o + ms
  quota : ∀ w ∈ windows, w.length ≤ limit
  apart : windows.Pairwise fun v w => ∀ o ∈ v.head?, ∀ t ∈ w, o + ms < t

end Scaffold.RateLimit
