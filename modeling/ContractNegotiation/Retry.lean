import ContractNegotiation.Instant
import ContractNegotiation.Table

namespace ContractNegotiation

structure Backoff where
  maxRetries : Int
  baseDelay : Int
  maxDelay : Int
  deriving DecidableEq, Inhabited, Repr

namespace Backoff

def ceiling (b : Backoff) : Int := max b.baseDelay b.maxDelay

/-- Doubles at most `times` times, and never from the ceiling on. -/
def double (ceiling : Int) : Nat → Int → Int
  | 0, delay => delay
  | times + 1, delay => if delay < ceiling then double ceiling times (delay * 2) else delay

def delay (b : Backoff) (attempt : Int) : Int :=
  if attempt ≤ 0 then 0
  else min (double b.ceiling (attempt.toNat - 1) b.baseDelay) b.ceiling

end Backoff

structure RetryEntry where
  attempts : Nat
  nextAttemptAt : Instant
  deriving DecidableEq, Inhabited, Repr

structure RetryLog where
  entries : Table RetryEntry := {}
  deriving Inhabited, Repr

namespace RetryLog

def attempts (r : RetryLog) (id : String) : Nat :=
  match r.entries.get? id with
  | none => 0
  | some entry => entry.attempts

def isDue (r : RetryLog) (id : String) (now : Instant) : Bool :=
  match r.entries.get? id with
  | none => true
  | some entry => entry.nextAttemptAt ≤ now

def recordFailure (r : RetryLog) (b : Backoff) (id : String) (now : Instant) : Bool × RetryLog :=
  let attempts := r.attempts id + 1
  if b.maxRetries ≤ attempts then (true, ⟨r.entries.erase id⟩)
  else (false, ⟨r.entries.insert id ⟨attempts, now.later (b.delay attempts)⟩⟩)

def clear (r : RetryLog) (id : String) : RetryLog := ⟨r.entries.erase id⟩

end RetryLog

end ContractNegotiation
