import ContractNegotiation.Binary64
import Mathlib.Data.Nat.Log
import Mathlib.Tactic.Common

namespace ContractNegotiation.Binary64

theorem twoTo_add (k l : Nat) : twoTo (k + l) = twoTo k * twoTo l := Nat.pow_add 2 k l

theorem twoTo_pos (k : Nat) : 0 < twoTo k := Nat.two_pow_pos k

theorem tenTo_add (k l : Nat) : tenTo (k + l) = tenTo k * tenTo l := Nat.pow_add 10 k l

theorem tenTo_pos (k : Nat) : 0 < tenTo k := Nat.pow_pos (by decide)

theorem twoTo_eleven : twoTo 11 = 2048 := rfl

theorem twoTo_fiftyTwo : twoTo 52 = 4503599627370496 := rfl

theorem twoTo_sixtyThree : twoTo 63 = 9223372036854775808 := rfl

variable {x : Binary64} {n : Int} {negative : Bool} {word significand field num den a b c : Nat}

section Rounding

theorem roundDiv_one (num : Nat) : roundDiv num 1 = num := by
  simp [roundDiv, Nat.mod_one]

theorem roundDiv_mul (num den : Nat) (hc : 0 < c) :
    roundDiv (num * c) (den * c) = roundDiv num den := by
  have hlt : den * c < 2 * (num % den * c) ↔ den < 2 * (num % den) := by
    rw [← Nat.mul_assoc]
    exact Nat.mul_lt_mul_right hc
  have heq : 2 * (num % den * c) = den * c ↔ 2 * (num % den) = den := by
    rw [← Nat.mul_assoc]
    exact Nat.mul_left_inj hc.ne'
  simp only [roundDiv, Nat.mul_div_mul_right _ _ hc, Nat.mul_mod_mul_right, hlt, heq]

theorem le_roundDiv (hden : 0 < den) (h : a * den ≤ num) : a ≤ roundDiv num den := by
  have hq : a ≤ num / den := (Nat.le_div_iff_mul_le hden).mpr h
  unfold roundDiv
  dsimp only
  split <;> omega

theorem roundDiv_le (hden : 0 < den) (h : num < b * den) : roundDiv num den ≤ b := by
  have hq : num / den < b := (Nat.div_lt_iff_lt_mul hden).mpr h
  unfold roundDiv
  dsimp only
  split <;> omega

end Rounding

section Words

theorem toNat_ofWord (h : word < twoTo 63) :
    (ofWord negative word).bits.toNat = word + if negative then twoTo 63 else 0 := by
  rw [ofWord, UInt64.toNat_ofNat', Nat.mod_eq_of_lt]
  rw [twoTo_sixtyThree] at h ⊢
  split <;> omega

theorem isNegative_ofWord (h : word < twoTo 63) : (ofWord negative word).isNegative = negative := by
  rw [isNegative, toNat_ofWord h]
  cases negative <;> simp [h]

theorem fraction_ofWord (h : word < twoTo 63) :
    (ofWord negative word).fraction = word % twoTo 52 := by
  rw [fraction, toNat_ofWord h]
  rw [twoTo_sixtyThree] at h ⊢
  rw [twoTo_fiftyTwo]
  split <;> omega

theorem exponentField_ofWord (h : word < twoTo 63) :
    (ofWord negative word).exponentField = word / twoTo 52 := by
  rw [exponentField, toNat_ofWord h]
  rw [twoTo_sixtyThree] at h ⊢
  rw [twoTo_fiftyTwo, twoTo_eleven]
  split <;> omega

structure Normal (significand field : Nat) : Prop where
  le : twoTo 52 ≤ significand
  lt : significand < 2 * twoTo 52
  pos : 0 < field
  finite : field < 2047

theorem Normal.word_lt (h : Normal significand field) :
    (field - 1) * twoTo 52 + significand < twoTo 63 := by
  obtain ⟨-, hlt, -, hfinite⟩ := h
  rw [twoTo_fiftyTwo] at hlt ⊢
  rw [twoTo_sixtyThree]
  omega

theorem Normal.magnitude (h : Normal significand field) (negative : Bool) :
    (ofWord negative ((field - 1) * twoTo 52 + significand)).magnitude =
      .finite significand (field - 1075) := by
  have hword := h.word_lt
  obtain ⟨hle, hlt, hpos, hfinite⟩ := h
  have hexponent : ((field - 1) * twoTo 52 + significand) / twoTo 52 = field := by
    rw [twoTo_fiftyTwo] at *
    omega
  have hfraction : twoTo 52 + ((field - 1) * twoTo 52 + significand) % twoTo 52 = significand := by
    rw [twoTo_fiftyTwo] at *
    omega
  rw [Binary64.magnitude, exponentField_ofWord hword, fraction_ofWord hword, hexponent, hfraction,
    if_neg hfinite.ne, if_neg hpos.ne']

theorem fields_of_zero {e : Int} (h : x.magnitude = .finite 0 e) :
    x.exponentField = 0 ∧ x.fraction = 0 := by
  unfold Binary64.magnitude at h
  split at h
  · split at h <;> cases h
  · split at h
    · rename_i hfield
      exact ⟨hfield, (Magnitude.finite.inj h).1⟩
    · have hpos : 0 < twoTo 52 := twoTo_pos 52
      have hsum := (Magnitude.finite.inj h).1
      omega

end Words

section Whole

theorem exists_of_toInt? (h : x.toInt? = some n) : ∃ m e, x.magnitude = .finite m e ∧
    m * twoTo e.toNat = n.natAbs * twoTo (-e).toNat ∧
      n = if x.isNegative then -(n.natAbs : Int) else n.natAbs := by
  unfold toInt? at h
  split at h
  · rename_i m e hm
    refine ⟨m, e, hm, ?_⟩
    dsimp only at h
    split at h
    · rename_i hmod
      have hn := Option.some.inj h
      generalize hq : m * twoTo e.toNat / twoTo (-e).toNat = q at hn
      have habs : n.natAbs = q := by
        rw [← hn]
        split <;> simp
      rw [habs, ← hq]
      exact ⟨(Nat.div_mul_cancel (Nat.dvd_of_mod_eq_zero hmod)).symm, by rw [hq, hn]⟩
    · cases h
  · cases h

theorem eq_negativeZero (h : x.toInt? = some 0) (hx : x.isNegative = true) : x = negativeZero := by
  obtain ⟨m, e, hm, hvalue, -⟩ := exists_of_toInt? h
  rw [Int.natAbs_zero, Nat.zero_mul] at hvalue
  obtain rfl := (Nat.mul_eq_zero.mp hvalue).resolve_right (twoTo_pos _).ne'
  obtain ⟨hfield, hfraction⟩ := fields_of_zero hm
  have hlt := x.bits.toNat_lt
  have hsign : twoTo 63 ≤ x.bits.toNat := of_decide_eq_true hx
  have hbits : x.bits.toNat = 9223372036854775808 := by
    rw [exponentField, twoTo_fiftyTwo, twoTo_eleven] at hfield
    rw [fraction, twoTo_fiftyTwo] at hfraction
    rw [twoTo_sixtyThree] at hsign
    omega
  cases x
  simp only [negativeZero, mk.injEq]
  exact UInt64.toNat_inj.mp hbits

theorem toInt?_of_zero {e : Int} (h : x.magnitude = .finite 0 e) : x.toInt? = some 0 := by
  simp only [toInt?, h, Nat.zero_mul, Nat.zero_mod, Nat.zero_div, if_true, Int.natCast_zero,
    Int.neg_zero, ite_self]

theorem isNegative_eq_iff (h : x.toInt? = some n) :
    x.isNegative = decide (n < 0) ↔ x ≠ negativeZero := by
  obtain ⟨-, -, -, -, hn⟩ := exists_of_toInt? h
  constructor
  · rintro hsign rfl
    have hzero : negativeZero.toInt? = some 0 := toInt?_of_zero (e := -1074) rfl
    obtain rfl := Option.some.inj (hzero.symm.trans h)
    cases hsign
  · intro hx
    cases hsign : x.isNegative with
    | false =>
      rw [hsign, if_neg Bool.false_ne_true] at hn
      exact (decide_eq_false (by omega)).symm
    | true =>
      rw [hsign, if_pos rfl] at hn
      have hne : n ≠ 0 := by
        rintro rfl
        exact hx (eq_negativeZero h hsign)
      exact (decide_eq_true (by omega)).symm

theorem floorLog2_one (h : num ≠ 0) : floorLog2 num 1 = num.log2 := by
  have hlog : Nat.log2 1 = 0 := by decide
  have hle : twoTo num.log2 ≤ num := Nat.log2_self_le h
  have hneg : (-(num.log2 : Int)).toNat = 0 := by omega
  simp only [floorLog2, hlog, Int.natCast_zero, Int.sub_zero, Int.toNat_natCast, hneg, Nat.one_mul]
  exact if_pos ((Nat.mul_one num).symm ▸ hle)

theorem wordOfRatio_one (hnum : num ≠ 0) (h : num < twoTo 53) :
    Normal (num * twoTo (52 - num.log2)) (num.log2 + 1023) ∧
      wordOfRatio num 1 = (num.log2 + 1023 - 1) * twoTo 52 + num * twoTo (52 - num.log2) := by
  have hlog : num.log2 ≤ 52 := Nat.lt_succ_iff.mp ((Nat.log2_lt hnum).mpr h)
  have hle : twoTo 52 ≤ num * twoTo (52 - num.log2) := by
    have hself : twoTo num.log2 ≤ num := Nat.log2_self_le hnum
    have hscaled := Nat.mul_le_mul_right (twoTo (52 - num.log2)) hself
    rwa [← twoTo_add, Nat.add_sub_cancel' hlog] at hscaled
  have hlt : num * twoTo (52 - num.log2) < 2 * twoTo 52 := by
    have hself : num < twoTo (1 + num.log2) := Nat.add_comm 1 _ ▸ Nat.lt_log2_self
    have hscaled := Nat.mul_lt_mul_of_pos_right hself (twoTo_pos (52 - num.log2))
    rwa [← twoTo_add, Nat.add_assoc, Nat.add_sub_cancel' hlog, twoTo_add] at hscaled
  have hnormal : Normal (num * twoTo (52 - num.log2)) (num.log2 + 1023) :=
    ⟨hle, hlt, by omega, by omega⟩
  refine ⟨hnormal, ?_⟩
  have hexponent : max ((num.log2 : Int) - 52) (-1074) = (num.log2 : Int) - 52 := by omega
  have hneg : (-((num.log2 : Int) - 52)).toNat = 52 - num.log2 := by omega
  have hpos : ((num.log2 : Int) - 52).toNat = 0 := by omega
  have hbias : ((num.log2 : Int) - 52 + 1074).toNat = num.log2 + 1023 - 1 := by omega
  have hone : 1 * twoTo 0 = 1 := rfl
  have hword : (num.log2 + 1023 - 1) * twoTo 52 + num * twoTo (52 - num.log2) ≤ infinityWord := by
    rw [infinityWord]
    rw [twoTo_fiftyTwo] at hlt ⊢
    omega
  rw [wordOfRatio, if_neg hnum, floorLog2_one hnum]
  dsimp only
  rw [hexponent, hneg, hpos, hbias, hone, roundDiv_one, min_eq_left hword]

theorem ofInt_exact (h : n.natAbs < twoTo 53) :
    (ofInt n).toInt? = some n ∧ (ofInt n).isNegative = decide (n < 0) := by
  by_cases hn : n = 0
  · subst hn
    exact ⟨toInt?_of_zero (e := -1074) rfl, rfl⟩
  have hnum : n.natAbs ≠ 0 := Int.natAbs_ne_zero.mpr hn
  have hlog : n.natAbs.log2 ≤ 52 := Nat.lt_succ_iff.mp ((Nat.log2_lt hnum).mpr h)
  obtain ⟨hnormal, hword⟩ := wordOfRatio_one hnum h
  have hofInt : ofInt n = ofWord (decide (n < 0)) (wordOfRatio n.natAbs 1) := by
    have hone : n.natAbs * twoTo (0 : Int).toNat = n.natAbs := Nat.mul_one _
    rw [ofInt, ofBinary, if_neg hnum, if_neg (by omega), if_neg (by omega), hone]
    rfl
  have hsign : (ofInt n).isNegative = decide (n < 0) := by
    rw [hofInt, hword, isNegative_ofWord hnormal.word_lt]
  have hmagnitude := hnormal.magnitude (decide (n < 0))
  rw [← hword, ← hofInt] at hmagnitude
  refine ⟨?_, hsign⟩
  have hpos : (((n.natAbs.log2 + 1023 : Nat) : Int) - 1075).toNat = 0 := by omega
  have hneg : (-(((n.natAbs.log2 + 1023 : Nat) : Int) - 1075)).toNat = 52 - n.natAbs.log2 := by
    omega
  have hone : twoTo 0 = 1 := rfl
  simp only [toInt?, hmagnitude, hpos, hneg, hone, Nat.mul_one, Nat.mul_mod_left, if_true,
    Nat.mul_div_cancel _ (twoTo_pos _), hsign, decide_eq_true_eq, Option.some.injEq]
  split <;> omega

end Whole

end ContractNegotiation.Binary64
