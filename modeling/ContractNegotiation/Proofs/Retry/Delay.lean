import ContractNegotiation.Retry
import Mathlib.Algebra.Order.Ring.Int
import Mathlib.Data.Nat.Find
import Mathlib.Tactic.Common

namespace ContractNegotiation.Backoff

variable {ceiling delay : Int}

def doubleWord (ceiling : Int64) : Nat → Int64 → Int64
  | 0, delay => delay
  | times + 1, delay => if delay < ceiling then doubleWord ceiling times (delay * 2) else delay

theorem double_bounded (hceiling : ceiling ≤ 2 ^ 62) (times : Nat) (h0 : 0 ≤ delay)
    (h : delay < 2 ^ 63) :
    0 ≤ double ceiling times delay ∧ double ceiling times delay < 2 ^ 63 := by
  induction times generalizing delay with
  | zero => exact ⟨h0, h⟩
  | succ times ih =>
    unfold double
    split
    · exact ih (by omega) (by omega)
    · exact ⟨h0, h⟩

theorem toInt_doubleWord (ceiling delay : Int64) (hceiling : ceiling.toInt ≤ 2 ^ 62)
    (h0 : 0 ≤ delay.toInt) (times : Nat) :
    (doubleWord ceiling times delay).toInt = double ceiling.toInt times delay.toInt := by
  induction times generalizing delay with
  | zero => rfl
  | succ times ih =>
    unfold doubleWord double
    by_cases hdelay : delay < ceiling
    · have hbelow : delay.toInt < ceiling.toInt := Int64.lt_iff_toInt_lt.mp hdelay
      have htwice : (delay * 2).toInt = delay.toInt * 2 := by
        rw [Int64.toInt_mul, show (2 : Int64).toInt = 2 from rfl]
        exact Int.bmod_eq_of_le (by omega) (by omega)
      rw [if_pos hdelay, if_pos hbelow, ← htwice]
      exact ih _ (by omega)
    · rw [if_neg hdelay, if_neg (mt Int64.lt_iff_toInt_lt.mpr hdelay)]

/-- Both ways out of the loop agree below the ceiling: once it is reached, the power lies above it.
-/
theorem min_double (h0 : 0 ≤ delay) (times : Nat) :
    min (double ceiling times delay) ceiling = min (delay * 2 ^ times) ceiling := by
  induction times generalizing delay with
  | zero => rw [double, pow_zero, mul_one]
  | succ times ih =>
    unfold double
    split
    · rw [ih (by omega), mul_assoc, ← pow_succ']
    · have hgrown : delay ≤ delay * 2 ^ (times + 1) :=
        le_mul_of_one_le_right h0 (one_le_pow₀ (by decide))
      omega

theorem double_eq_of_last {last : Nat} (hlast : ceiling ≤ delay * 2 ^ last)
    (hbefore : ∀ k < last, delay * 2 ^ k < ceiling) (times : Nat) :
    double ceiling times delay = delay * 2 ^ min times last := by
  induction times generalizing delay last with
  | zero => simp [double]
  | succ times ih =>
    unfold double
    cases last with
    | zero =>
      rw [pow_zero, mul_one] at hlast
      rw [if_neg (by omega), Nat.min_zero, pow_zero, mul_one]
    | succ last =>
      have hdelay : delay < ceiling := by simpa using hbefore 0 (by omega)
      have htwice (k : Nat) : delay * 2 * 2 ^ k = delay * 2 ^ (k + 1) := by
        rw [mul_assoc, ← pow_succ']
      rw [if_pos hdelay, ih (htwice last ▸ hlast) fun k hk => htwice k ▸ hbefore _ (by omega),
        htwice, Nat.add_min_add_right]

theorem exists_last (h : 0 < delay) {limit : Nat} (hceiling : ceiling ≤ 2 ^ limit) :
    ∃ last ≤ limit, ceiling ≤ delay * 2 ^ last ∧ ∀ k < last, delay * 2 ^ k < ceiling := by
  have hlimit : ceiling ≤ delay * 2 ^ limit :=
    hceiling.trans (le_mul_of_one_le_left (pow_nonneg (by decide) _) h)
  have hexists : ∃ last : Nat, ceiling ≤ delay * 2 ^ last := ⟨limit, hlimit⟩
  exact ⟨Nat.find hexists, Nat.find_le hlimit, Nat.find_spec hexists,
    fun k hk => not_le.mp (Nat.find_min hexists hk)⟩

theorem delay_of_nonpos (b : Backoff) {attempt : Int} (h : attempt ≤ 0) : b.delay attempt = 0 :=
  if_pos h

theorem delay_eq_min {b : Backoff} (hbase : 0 ≤ b.baseDelay) {attempt : Int} (h : 1 ≤ attempt) :
    b.delay attempt = min (b.baseDelay * 2 ^ (attempt.toNat - 1)) b.ceiling := by
  rw [delay, if_neg (by omega), min_double hbase]

theorem delay_le_delay {b : Backoff} (hbase : 0 ≤ b.baseDelay) {attempt later : Int}
    (hlater : attempt ≤ later) : b.delay attempt ≤ b.delay later := by
  have hceiling : 0 ≤ b.ceiling := hbase.trans (le_max_left _ _)
  by_cases hattempt : attempt ≤ 0
  · rw [delay_of_nonpos b hattempt]
    by_cases hl : later ≤ 0
    · rw [delay_of_nonpos b hl]
    · rw [delay_eq_min hbase (by omega)]
      exact le_min (mul_nonneg hbase (pow_nonneg (by decide) _)) hceiling
  · have hpowers : (2 : Int) ^ (attempt.toNat - 1) ≤ 2 ^ (later.toNat - 1) :=
      pow_le_pow_right₀ (by decide) (by omega)
    rw [delay_eq_min hbase (by omega), delay_eq_min hbase (by omega)]
    exact min_le_min_right _ (mul_le_mul_of_nonneg_left hpowers hbase)

/-- Delays up to a ceiling of at most 2 ^ 62 milliseconds: the base doubled for each attempt but the
first, cut at the ceiling, and never less for a later attempt. Whatever the loop holds after some
rounds fits into a word of 64 bits and is what words would hold, and a positive base is doubled 63
times at most, in however many rounds. -/
theorem delay_grows {b : Backoff} (hbase : 0 ≤ b.baseDelay) (hceiling : b.ceiling ≤ 2 ^ 62) :
    (∀ attempt ≤ 0, b.delay attempt = 0) ∧
    (∀ attempt ≥ 1,
      b.delay attempt = min (b.baseDelay * 2 ^ (attempt.toNat - 1)) (max b.baseDelay b.maxDelay)) ∧
    (∀ times, 0 ≤ double b.ceiling times b.baseDelay ∧
      double b.ceiling times b.baseDelay < 2 ^ 63 ∧
      (doubleWord (.ofInt b.ceiling) times (.ofInt b.baseDelay)).toInt =
        double b.ceiling times b.baseDelay) ∧
    (∀ attempt later, attempt ≤ later → b.delay attempt ≤ b.delay later) ∧
    (0 < b.baseDelay → ∃ doublings ≤ 63, ∀ times,
      double b.ceiling times b.baseDelay = b.baseDelay * 2 ^ min times doublings) := by
  have hle : b.baseDelay ≤ b.ceiling := le_max_left _ _
  refine ⟨fun _ => b.delay_of_nonpos, fun _ => delay_eq_min hbase, fun times => ?_,
    fun _ _ => delay_le_delay hbase, fun hpos => ?_⟩
  · have hbaseWord : (Int64.ofInt b.baseDelay).toInt = b.baseDelay :=
      Int64.toInt_ofInt_of_le (by omega) (by omega)
    have hceilingWord : (Int64.ofInt b.ceiling).toInt = b.ceiling :=
      Int64.toInt_ofInt_of_le (by omega) (by omega)
    have hword := toInt_doubleWord (.ofInt b.ceiling) (.ofInt b.baseDelay) (by omega)
      (by omega) times
    rw [hbaseWord, hceilingWord] at hword
    obtain ⟨h0, hbound⟩ := double_bounded hceiling times hbase (by omega)
    exact ⟨h0, hbound, hword⟩
  · obtain ⟨last, hlast, hreached, hbefore⟩ := exists_last hpos hceiling
    exact ⟨last, by omega, double_eq_of_last hreached hbefore⟩

theorem delay_grows_to_widest : ∃ b : Backoff, 0 ≤ b.baseDelay ∧ b.ceiling ≤ 2 ^ 62 ∧
    b.delay 61 = 3 * 2 ^ 60 ∧ b.delay 62 = 2 ^ 62 ∧ b.delay (2 ^ 31 - 1) = 2 ^ 62 := by
  let b : Backoff := ⟨5, 3, 2 ^ 62⟩
  have hbase : 0 ≤ b.baseDelay := by decide
  have hceiling : b.ceiling ≤ 2 ^ 62 := by decide
  obtain ⟨-, hdelay, -, hlater, -⟩ := delay_grows hbase hceiling
  have hreached : b.delay 62 = 2 ^ 62 := (hdelay 62 (by decide)).trans (by decide)
  have hlast : b.delay (2 ^ 31 - 1) ≤ 2 ^ 62 := by
    rw [hdelay _ (by decide)]
    exact min_le_right _ _
  exact ⟨b, hbase, hceiling, (hdelay 61 (by decide)).trans (by decide), hreached,
    hlast.antisymm (hreached ▸ hlater _ _ (by decide))⟩

end ContractNegotiation.Backoff
