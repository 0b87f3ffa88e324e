import ContractNegotiation.Retry
import Mathlib.Algebra.Group.Int.Defs
import Mathlib.Tactic.Common

namespace ContractNegotiation

namespace Backoff

theorem min_le_double (ceiling : Int) (times : Nat) (delay : Int) :
    min (delay * 2 ^ times) ceiling ≤ double ceiling times delay := by
  induction times generalizing delay with
  | zero =>
    rw [Int.pow_zero, Int.mul_one]
    exact Int.min_le_left _ _
  | succ times ih =>
    unfold double
    split
    · have hstep := ih (delay * 2)
      rwa [Int.mul_assoc, ← Int.pow_succ'] at hstep
    · rename_i hdelay
      have hmin := Int.min_le_right (delay * 2 ^ (times + 1)) ceiling
      omega

theorem min_le_delay (b : Backoff) (k : Nat) :
    min (b.baseDelay * 2 ^ k) b.ceiling ≤ b.delay (k + 1 : Nat) := by
  unfold delay
  rw [if_neg (by omega), Int.toNat_natCast, Nat.add_sub_cancel]
  exact Int.le_min.mpr ⟨min_le_double _ _ _, Int.min_le_right _ _⟩

def limit (b : Backoff) : Nat := (max 1 b.maxRetries).toNat

end Backoff

def RetryEntry.count : Option RetryEntry → Nat
  | none => 0
  | some entry => entry.attempts

namespace RetryLog

variable {r r' : RetryLog} {b : Backoff} {id : String} {now : Instant} {exhausted : Bool}

theorem attempts_eq (r : RetryLog) (id : String) :
    r.attempts id = RetryEntry.count (r.entries.get? id) := by
  unfold attempts RetryEntry.count
  split <;> simp [*]

theorem isDue_iff : r.isDue id now = true ↔
    ∀ e, r.entries.get? id = some e → e.nextAttemptAt ≤ now := by
  unfold isDue
  split <;> simp [*]

theorem get?_clear (r : RetryLog) (id other : String) :
    (r.clear id).entries.get? other = if other = id then none else r.entries.get? other :=
  Table.get?_erase r.entries id other

theorem attempts_clear (r : RetryLog) (id other : String) :
    (r.clear id).attempts other = if other = id then 0 else r.attempts other := by
  rw [attempts_eq, get?_clear]
  split
  · rfl
  · rw [attempts_eq]

theorem recordFailure_waits (h : r.recordFailure b id now = (false, r')) :
    (r.attempts id + 1 : Nat) < b.maxRetries ∧ ∀ other, r'.entries.get? other =
      if other = id then some ⟨r.attempts id + 1, now.later (b.delay (r.attempts id + 1 : Nat))⟩
      else r.entries.get? other := by
  unfold recordFailure at h
  dsimp only at h
  split at h <;> cases h
  exact ⟨by omega, fun other => Table.get?_insert _ _ _ _⟩

theorem recordFailure_exhausted (h : r.recordFailure b id now = (true, r')) :
    b.maxRetries ≤ (r.attempts id + 1 : Nat) ∧ r' = r.clear id := by
  unfold recordFailure at h
  dsimp only at h
  split at h <;> cases h
  exact ⟨by omega, rfl⟩

theorem attempts_recordFailure_of_ne {other : String} (h : other ≠ id) :
    (r.recordFailure b id now).2.attempts other = r.attempts other := by
  rcases hr : r.recordFailure b id now with ⟨_ | _, r'⟩
  · rw [attempts_eq, attempts_eq, (recordFailure_waits hr).2, if_neg h]
  · rw [(recordFailure_exhausted hr).2, attempts_clear, if_neg h]

theorem attempts_recordFailure : (r.recordFailure b id now).2.attempts id =
    if (r.recordFailure b id now).1 then 0 else r.attempts id + 1 := by
  rcases hr : r.recordFailure b id now with ⟨_ | _, r'⟩
  · rw [attempts_eq, (recordFailure_waits hr).2, if_pos rfl]
    rfl
  · rw [(recordFailure_exhausted hr).2, attempts_clear, if_pos rfl]
    rfl

theorem exhausted_iff :
    (r.recordFailure b id now).1 = true ↔ b.limit ≤ r.attempts id + 1 := by
  unfold recordFailure Backoff.limit
  dsimp only
  split
  · simp only [true_iff]
    omega
  · simp only [Bool.false_eq_true, false_iff]
    omega

theorem get?_recordFailure (r : RetryLog) (b : Backoff) (id : String) (now : Instant)
    (other : String) : (r.recordFailure b id now).2.entries.get? other =
      if other = id then
        if b.limit ≤ r.attempts id + 1 then none
        else some ⟨r.attempts id + 1, now.later (b.delay (r.attempts id + 1 : Nat))⟩
      else r.entries.get? other := by
  have hlast : (r.recordFailure b id now).1 = true ↔ b.limit ≤ r.attempts id + 1 := exhausted_iff
  rcases hr : r.recordFailure b id now with ⟨_ | _, r'⟩
  · have hfew : ¬ b.limit ≤ r.attempts id + 1 := fun hle => by simp [hr, hle] at hlast
    rw [(recordFailure_waits hr).2, if_neg hfew]
  · have hmany : b.limit ≤ r.attempts id + 1 := hlast.mp (by rw [hr])
    rw [(recordFailure_exhausted hr).2, get?_clear, if_pos hmany]

end RetryLog

end ContractNegotiation
