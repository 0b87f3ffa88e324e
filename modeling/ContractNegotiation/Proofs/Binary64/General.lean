import ContractNegotiation.Binary64.General
import ContractNegotiation.Proofs.Binary64.Whole
import Mathlib.Data.List.DropRight

/-! The general text of whole numbers. A number that has no more digits than the format keeps is
written out. A longer one is rounded and written with an exponent, so that numbers with the same
rounding share a text, and no others do. -/

namespace ContractNegotiation.Binary64

variable {f : GeneralFormat} {x y : Binary64} {m n : Int} {num den a b c d k l : Nat}
  {ds es : List Char}

section Digits

theorem decimalLength_pos (num : Nat) : 0 < decimalLength num := Nat.length_toDigits_pos

theorem decimalLength_le_iff (hk : 0 < k) : decimalLength num ≤ k ↔ num < tenTo k :=
  Nat.length_toDigits_le_iff (by decide) hk

theorem lt_tenTo_decimalLength (num : Nat) : num < tenTo (decimalLength num) :=
  (decimalLength_le_iff (decimalLength_pos num)).mp le_rfl

theorem tenTo_le (h : num ≠ 0) : tenTo (decimalLength num - 1) ≤ num := by
  by_contra hlt
  have hpos := decimalLength_pos num
  by_cases hone : decimalLength num = 1
  · rw [hone] at hlt
    exact hlt (Nat.one_le_iff_ne_zero.mpr h)
  · have hle := (decimalLength_le_iff (by omega)).mpr (Nat.lt_of_not_le hlt)
    omega

theorem toDigits_mul_tenTo (h : num ≠ 0) (k : Nat) :
    Nat.toDigits 10 (num * tenTo k) = Nat.toDigits 10 num ++ .replicate k '0' := by
  induction k with
  | zero => simp [tenTo]
  | succ k ih =>
    have hpos : 0 < num * tenTo k := Nat.mul_pos (Nat.pos_of_ne_zero h) (tenTo_pos k)
    have hstep := Nat.toDigits_append_toDigits (b := 10) (by decide) hpos (by decide : 0 < 10)
    rw [Nat.toDigits_zero, ih, List.append_assoc, ← List.replicate_succ'] at hstep
    have hnum : num * tenTo (k + 1) = 10 * (num * tenTo k) + 0 := by
      rw [tenTo_add, ← Nat.mul_assoc, Nat.mul_comm]
      rfl
    rw [hnum, hstep]

theorem toDigits_inj (h : Nat.toDigits 10 a = Nat.toDigits 10 b) : a = b := by
  rw [← Nat.ofDigitChars_ten_toDigits (n := a), h, Nat.ofDigitChars_ten_toDigits]

theorem notMem_toDigits {letter : Char} (h : letter.isDigit = false) (num : Nat) :
    letter ∉ Nat.toDigits 10 num := by
  intro hmem
  rw [Nat.isDigit_of_mem_toDigits (by decide) (by decide) hmem] at h
  cases h

end Digits

section Fractions

theorem exists_dropTrailingZeros (ds : List Char) :
    ∃ j, ds = dropTrailingZeros ds ++ .replicate j '0' := by
  have hsplit := List.takeWhile_append_dropWhile (p := (· = '0')) (l := ds.reverse)
  refine ⟨(ds.reverse.takeWhile (· = '0')).length, ?_⟩
  have hzeros : ds.reverse.takeWhile (· = '0') = .replicate _ '0' :=
    List.eq_replicate_of_mem fun c hc => by simpa using List.mem_takeWhile_imp hc
  rw [hzeros] at hsplit
  have hreverse := congrArg List.reverse hsplit
  rw [List.reverse_append, List.reverse_replicate, List.reverse_reverse] at hreverse
  exact hreverse.symm

theorem tail_fractionText (ds : List Char) : (fractionText ds).tail = dropTrailingZeros ds := by
  unfold fractionText
  split <;> simp_all

theorem fractionText_inj (hlength : ds.length = es.length) (h : fractionText ds = fractionText es) :
    ds = es := by
  have hkept : dropTrailingZeros ds = dropTrailingZeros es := by
    rw [← tail_fractionText, h, tail_fractionText]
  obtain ⟨i, hds⟩ := exists_dropTrailingZeros ds
  obtain ⟨j, hes⟩ := exists_dropTrailingZeros es
  have hi := congrArg List.length hds
  have hj := congrArg List.length hes
  rw [List.length_append, List.length_replicate] at hi hj
  have hij : i = j := by
    rw [hkept] at hi
    omega
  rw [hds, hkept, hij, ← hes]

theorem fractionText_replicate (j : Nat) : fractionText (.replicate j '0') = [] := by
  simp [fractionText, dropTrailingZeros]

theorem mem_of_mem_fractionText {letter : Char} (h : letter ∈ fractionText ds) :
    letter = '.' ∨ letter ∈ ds := by
  obtain ⟨j, hds⟩ := exists_dropTrailingZeros ds
  unfold fractionText at h
  cases hkept : dropTrailingZeros ds with
  | nil => simp [hkept] at h
  | cons c kept =>
    rw [hkept] at h hds
    rcases List.mem_cons.mp h with h | h
    · exact .inl h
    · exact .inr (hds ▸ List.mem_append_left _ h)

end Fractions

section Scientific

def mantissaText (d : Nat) : List Char :=
  (Nat.toDigits 10 d).take 1 ++ fractionText ((Nat.toDigits 10 d).drop 1)

def scientificText (f : GeneralFormat) (d : Nat) (k : Int) : List Char :=
  mantissaText d ++ exponentText f k

theorem notMem_mantissaText (d : Nat) : 'e' ∉ mantissaText d := by
  have hdigits : 'e' ∉ Nat.toDigits 10 d := notMem_toDigits (by decide) d
  intro hmem
  rcases List.mem_append.mp hmem with hmem | hmem
  · exact hdigits (List.mem_of_mem_take hmem)
  · rcases mem_of_mem_fractionText hmem with hmem | hmem
    · exact absurd hmem (by decide)
    · exact hdigits (List.mem_of_mem_drop hmem)

theorem mantissaText_inj (hlength : decimalLength c = decimalLength d)
    (h : mantissaText c = mantissaText d) : c = d := by
  have htake : ((Nat.toDigits 10 c).take 1).length = ((Nat.toDigits 10 d).take 1).length := by
    rw [List.length_take, List.length_take]
    exact congrArg (min 1) hlength
  have hdrop : ((Nat.toDigits 10 c).drop 1).length = ((Nat.toDigits 10 d).drop 1).length := by
    rw [List.length_drop, List.length_drop]
    exact congrArg (· - 1) hlength
  obtain ⟨hfirst, hrest⟩ := List.append_inj h htake
  apply toDigits_inj
  rw [← List.take_append_drop 1 (Nat.toDigits 10 c), hfirst, fractionText_inj hdrop hrest,
    List.take_append_drop]

theorem exponentText_inj (h : exponentText f k = exponentText f l) : k = l := by
  have hneg : ∀ i : Nat, ¬ (i : Int) < 0 := fun i => by omega
  simp only [exponentText, Int.natAbs_natCast, if_neg (hneg _), List.cons.injEq, true_and] at h
  have hvalue := congrArg (Nat.ofDigitChars 10 · 0) h
  simpa only [Nat.ofDigitChars_append, Nat.ofDigitChars_replicate_zero, Nat.mul_zero,
    Nat.ofDigitChars_ten_toDigits] using hvalue

theorem scientificText_inj (hlength : decimalLength c = decimalLength d)
    (h : scientificText f c k = scientificText f d l) : c = d ∧ k = l := by
  -- The letter of the exponent shows where the mantissa ends.
  have hmantissa : ∀ a, ∀ letter ∈ mantissaText a, (letter != 'e') = true := by
    rintro a letter hmem
    rw [bne_iff_ne]
    rintro rfl
    exact notMem_mantissaText a hmem
  have hletter : ∀ i : Int, (exponentText f i).takeWhile (· != 'e') = [] ∧
      (exponentText f i).dropWhile (· != 'e') = exponentText f i := fun _ => ⟨rfl, rfl⟩
  have htake := congrArg (List.takeWhile (· != 'e')) h
  have hdrop := congrArg (List.dropWhile (· != 'e')) h
  simp only [scientificText, List.takeWhile_append_of_pos (hmantissa _), hletter, List.append_nil,
    List.dropWhile_append_of_pos (hmantissa _)] at htake hdrop
  exact ⟨mantissaText_inj hlength htake, exponentText_inj hdrop⟩

end Scientific

section Scales

theorem floorLog10_mul (num den : Nat) (hc : 0 < c) :
    floorLog10 (num * c) (den * c) = floorLog10 num den := by
  have heq : num * c * tenTo (decimalLength (den / num) - 1) = den * c ↔
      num * tenTo (decimalLength (den / num) - 1) = den := by
    rw [Nat.mul_right_comm]
    exact Nat.mul_left_inj hc.ne'
  simp only [floorLog10, Nat.mul_div_mul_right _ _ hc, Nat.mul_le_mul_right_iff hc, heq]

theorem significantDigits_mul (count num den : Nat) (hc : 0 < c) :
    significantDigits count (num * c) (den * c) = significantDigits count num den := by
  simp only [significantDigits, floorLog10_mul num den hc, Nat.mul_right_comm _ c,
    roundDiv_mul _ _ hc]

theorem positiveText_mul (f : GeneralFormat) (num den : Nat) (hc : 0 < c) :
    positiveText f (num * c) (den * c) = positiveText f num den := by
  simp only [positiveText, significantDigits_mul _ _ _ hc]

end Scales

section Whole

def rounded (count num : Nat) : Nat :=
  roundDiv num (tenTo (decimalLength num - count)) * tenTo (decimalLength num - count)

theorem rounded_of_le (h : decimalLength num ≤ c) : rounded c num = num := by
  have hone : tenTo 0 = 1 := rfl
  rw [rounded, Nat.sub_eq_zero_of_le h, hone, roundDiv_one, Nat.mul_one]

theorem decimalLength_mul_tenTo (h : num ≠ 0) (k : Nat) :
    decimalLength (num * tenTo k) = decimalLength num + k := by
  rw [decimalLength, toDigits_mul_tenTo h, List.length_append, List.length_replicate, decimalLength]

theorem decimalLength_eq (hle : tenTo k ≤ num) (hlt : num < tenTo (k + 1)) :
    decimalLength num = k + 1 := by
  refine Nat.le_antisymm ((decimalLength_le_iff (Nat.succ_pos k)).mpr hlt) ?_
  by_contra hshort
  have hk : decimalLength num ≤ k := by omega
  have hpos := decimalLength_pos num
  have hnum := (decimalLength_le_iff (by omega)).mp hk
  omega

theorem floorLog10_one (h : num ≠ 0) : floorLog10 num 1 = (decimalLength num : Int) - 1 := by
  rw [floorLog10, if_pos (Nat.one_le_iff_ne_zero.mpr h), Nat.div_one]

theorem significantDigits_of_le (hnum : num ≠ 0) (h : decimalLength num ≤ c) :
    significantDigits c num 1 =
      (num * tenTo (c - decimalLength num), (decimalLength num : Int) - 1) := by
  have hshift : ((c : Int) - 1 - ((decimalLength num : Int) - 1)).toNat =
      c - decimalLength num := by
    omega
  have hneg : (-((c : Int) - 1 - ((decimalLength num : Int) - 1))).toNat = 0 := by omega
  have hone : 1 * tenTo 0 = 1 := rfl
  have hlt : num * tenTo (c - decimalLength num) < tenTo c := by
    have hscaled := Nat.mul_lt_mul_of_pos_right (lt_tenTo_decimalLength num)
      (tenTo_pos (c - decimalLength num))
    rwa [← tenTo_add, Nat.add_sub_cancel' h] at hscaled
  simp only [significantDigits, floorLog10_one hnum, hshift, hneg, hone, roundDiv_one,
    if_neg hlt.ne]

structure Scientific (c d k num : Nat) : Prop where
  ne_zero : d ≠ 0
  length : decimalLength d = c
  le : c ≤ k
  value : num = d * tenTo (k + 1 - c)

theorem Scientific.decimalLength_eq (h : Scientific c d k num) : decimalLength num = k + 1 := by
  rw [h.value, decimalLength_mul_tenTo h.ne_zero, h.length]
  exact Nat.add_sub_cancel' (h.le.trans (Nat.le_succ k))

theorem Scientific.unique (h : Scientific c a k num) (h' : Scientific c b l num) :
    a = b ∧ k = l := by
  obtain rfl : k = l := Nat.succ.inj (h.decimalLength_eq.symm.trans h'.decimalLength_eq)
  exact ⟨Nat.eq_of_mul_eq_mul_right (tenTo_pos _) (h.value.symm.trans h'.value), rfl⟩

theorem exists_scientific (hc : 0 < c) (hk : c ≤ k) (hle : tenTo (c - 1) ≤ num)
    (hge : num ≤ tenTo c) : ∃ d l : Nat,
    (if num = tenTo c then (tenTo (c - 1), (k : Int) + 1) else (num, (k : Int))) = (d, (l : Int)) ∧
      Scientific c d l (num * tenTo (k + 1 - c)) := by
  have hsucc : c - 1 + 1 = c := Nat.sub_add_cancel hc
  have hpos : 0 < tenTo (c - 1) := tenTo_pos _
  by_cases hup : num = tenTo c
  · have hpow : tenTo (c - 1) < tenTo (c - 1 + 1) := Nat.pow_lt_pow_right (by decide) (by omega)
    have hlength : decimalLength (tenTo (c - 1)) = c := (decimalLength_eq le_rfl hpow).trans hsucc
    have hvalue : tenTo c * tenTo (k + 1 - c) = tenTo (c - 1) * tenTo (k + 1 + 1 - c) := by
      rw [← tenTo_add, ← tenTo_add]
      congr 1
      omega
    rw [if_pos hup, hup]
    exact ⟨_, k + 1, rfl, hpos.ne', hlength, hk.trans (Nat.le_succ k), hvalue⟩
  · have hlt : num < tenTo (c - 1 + 1) := by
      rw [hsucc]
      exact Nat.lt_of_le_of_ne hge hup
    rw [if_neg hup]
    exact ⟨_, k, rfl, (hpos.trans_le hle).ne', (decimalLength_eq hle hlt).trans hsucc, hk, rfl⟩

theorem exists_significantDigits (hc : 0 < c) (h : c < decimalLength num) : ∃ d k : Nat,
    significantDigits c num 1 = (d, (k : Int)) ∧ Scientific c d k (rounded c num) := by
  have hnum : num ≠ 0 := by
    rintro rfl
    have hone : decimalLength 0 = 1 := rfl
    omega
  have hle : tenTo (c - 1) ≤ roundDiv num (tenTo (decimalLength num - c)) := by
    apply le_roundDiv (tenTo_pos _)
    rw [← tenTo_add, show c - 1 + (decimalLength num - c) = decimalLength num - 1 by omega]
    exact tenTo_le hnum
  have hge : roundDiv num (tenTo (decimalLength num - c)) ≤ tenTo c := by
    apply roundDiv_le (tenTo_pos _)
    rw [← tenTo_add, Nat.add_sub_cancel' h.le]
    exact lt_tenTo_decimalLength num
  obtain ⟨d, k, hdigits, hd⟩ := exists_scientific hc (Nat.le_sub_one_of_lt h) hle hge
  refine ⟨d, k, ?_, ?_⟩
  · have hfloor : ((decimalLength num - 1 : Nat) : Int) = (decimalLength num : Int) - 1 := by omega
    have hshift : ((c : Int) - 1 - ((decimalLength num : Int) - 1)).toNat = 0 := by omega
    have hneg : (-((c : Int) - 1 - ((decimalLength num : Int) - 1))).toNat =
        decimalLength num - c := by
      omega
    have hone : num * tenTo 0 = num := Nat.mul_one num
    rw [← hdigits, hfloor]
    simp only [significantDigits, floorLog10_one hnum, hshift, hneg, hone, Nat.one_mul]
  · rwa [Nat.sub_add_cancel (decimalLength_pos num)] at hd

inductive WholeText (f : GeneralFormat) (num : Nat) : List Char → Prop
  | short : decimalLength num ≤ f.count → WholeText f num (Nat.toDigits 10 num)
  | long (d k : Nat) : Scientific f.count d k (rounded f.count num) →
      WholeText f num (scientificText f d k)

theorem wholeText_positiveText (hcount : 0 < f.count) (hlowest : f.lowest ≤ 0) (h : num ≠ 0) :
    WholeText f num (positiveText f num 1) := by
  by_cases hle : decimalLength num ≤ f.count
  · have hpos := decimalLength_pos num
    have hscientific : ¬ ((decimalLength num : Int) - 1 < f.lowest ∨
        (f.count : Int) ≤ (decimalLength num : Int) - 1) := by omega
    have hnonneg : ¬ (decimalLength num : Int) - 1 < 0 := by omega
    have hlength : ((decimalLength num : Int) - 1).toNat + 1 = (Nat.toDigits 10 num).length := by
      rw [← decimalLength]
      omega
    have htext : positiveText f num 1 = Nat.toDigits 10 num := by
      simp only [positiveText, significantDigits_of_le h hle, if_neg hscientific, if_neg hnonneg,
        hlength, toDigits_mul_tenTo h, List.take_left, List.drop_left, fractionText_replicate,
        List.append_nil]
    rw [htext]
    exact .short hle
  · obtain ⟨d, k, hdigits, hd⟩ := exists_significantDigits hcount (Nat.lt_of_not_le hle)
    have hscientific : (k : Int) < f.lowest ∨ (f.count : Int) ≤ k := .inr (Int.ofNat_le.mpr hd.le)
    have htext : positiveText f num 1 = scientificText f d k := by
      simp only [positiveText, hdigits, if_pos hscientific, scientificText, mantissaText]
    rw [htext]
    exact .long d k hd

theorem wholeText_zero (hcount : 0 < f.count) : WholeText f 0 ['0'] := .short hcount

theorem isDigit_of_head {letter : Char} (h : (Nat.toDigits 10 num).head? = some letter) :
    letter.isDigit = true :=
  Nat.isDigit_of_mem_toDigits (by decide) (by decide) (List.mem_of_head? h)

theorem WholeText.isDigit (h : WholeText f num ds) {letter : Char} (hd : ds.head? = some letter) :
    letter.isDigit = true := by
  cases h with
  | short => exact isDigit_of_head hd
  | long d k =>
    have hne : Nat.toDigits 10 d ≠ [] := Nat.toDigits_ne_nil
    obtain ⟨first, rest, hdigits⟩ := List.exists_cons_of_ne_nil hne
    have hfirst : (Nat.toDigits 10 d).head? = some letter := by
      rw [← hd]
      simp [scientificText, mantissaText, hdigits]
    exact isDigit_of_head hfirst

theorem toDigits_ne_scientificText (num d : Nat) (k : Int) :
    Nat.toDigits 10 num ≠ scientificText f d k := by
  intro h
  have hletter : 'e' ∈ scientificText f d k := List.mem_append_right _ List.mem_cons_self
  exact notMem_toDigits (by decide) num (h ▸ hletter)

theorem Scientific.rounded_ne (h : Scientific c d k num) (ha : decimalLength a ≤ c) :
    rounded c a ≠ num := by
  intro heq
  have hlength := h.decimalLength_eq
  rw [← heq, rounded_of_le ha] at hlength
  have hle := h.le
  omega

theorem WholeText.eq_iff (hds : WholeText f a ds) (hes : WholeText f b es) :
    ds = es ↔ rounded f.count a = rounded f.count b := by
  cases hds with
  | short ha =>
    cases hes with
    | short hb =>
      rw [rounded_of_le ha, rounded_of_le hb]
      exact ⟨toDigits_inj, congrArg _⟩
    | long d k hd => exact iff_of_false (toDigits_ne_scientificText a d k) (hd.rounded_ne ha)
  | long c k hc =>
    cases hes with
    | short hb =>
      exact iff_of_false (toDigits_ne_scientificText b c k).symm (hc.rounded_ne hb).symm
    | long d l hd =>
      constructor
      · intro h
        obtain ⟨rfl, hkl⟩ := scientificText_inj (hc.length.trans hd.length.symm) h
        rw [hc.value, hd.value, hkl]
      · intro h
        obtain ⟨rfl, rfl⟩ := hc.unique (h ▸ hd)
        rfl

theorem WholeText.eq_toDigits_iff (h : WholeText f num ds) :
    ds = Nat.toDigits 10 num ↔ decimalLength num ≤ f.count := by
  cases h with
  | short hnum => exact iff_of_true rfl hnum
  | long d k hd =>
    exact iff_of_false (toDigits_ne_scientificText num d k).symm fun hle => hd.rounded_ne hle rfl

end Whole

section Texts

theorem exists_text (h : x.toInt? = some n) : ∃ ds, WholeText defaultFormat n.natAbs ds ∧
    x.text = String.ofList (if x.isNegative then '-' :: ds else ds) := by
  obtain ⟨m, e, hm, hvalue, -⟩ := exists_of_toInt? h
  have hlowest : defaultFormat.lowest ≤ 0 := by decide
  have hcount : 0 < defaultFormat.count := by decide
  by_cases hzero : n.natAbs = 0
  · rw [hzero, Nat.zero_mul] at hvalue
    obtain rfl := (Nat.mul_eq_zero.mp hvalue).resolve_right (twoTo_pos _).ne'
    refine ⟨['0'], hzero ▸ wholeText_zero hcount, ?_⟩
    simp only [text, generalText, hm, if_true]
  · have hne : m ≠ 0 := by
      rintro rfl
      rw [Nat.zero_mul] at hvalue
      exact hzero ((Nat.mul_eq_zero.mp hvalue.symm).resolve_right (twoTo_pos _).ne')
    refine ⟨_, wholeText_positiveText hcount hlowest hzero, ?_⟩
    have hscaled := positiveText_mul defaultFormat n.natAbs 1 (twoTo_pos (-e).toNat)
    rw [← hvalue, Nat.one_mul] at hscaled
    simp only [text, generalText, hm, if_neg hne, hscaled]

theorem signed_inj {p q : Bool} (hds : ∀ letter, ds.head? = some letter → letter.isDigit = true)
    (hes : ∀ letter, es.head? = some letter → letter.isDigit = true) :
    (if p then '-' :: ds else ds) = (if q then '-' :: es else es) ↔ p = q ∧ ds = es := by
  have hminus : '-'.isDigit ≠ true := by decide
  cases p <;> cases q
  · simp
  · simp only [Bool.false_eq_true, if_true, if_false, false_and, iff_false]
    rintro rfl
    exact hminus (hds '-' rfl)
  · simp only [Bool.true_eq_false, Bool.false_eq_true, if_true, if_false, false_and, iff_false]
    rintro rfl
    exact hminus (hes '-' rfl)
  · simp

theorem text_eq_iff (hx : x.toInt? = some m) (hy : y.toInt? = some n) : x.text = y.text ↔
    x.isNegative = y.isNegative ∧
      rounded defaultFormat.count m.natAbs = rounded defaultFormat.count n.natAbs := by
  obtain ⟨ds, hds, hxtext⟩ := exists_text hx
  obtain ⟨es, hes, hytext⟩ := exists_text hy
  rw [hxtext, hytext, String.ofList_inj, ← hds.eq_iff hes]
  exact signed_inj (fun _ => hds.isDigit) fun _ => hes.isDigit

theorem toString_eq (n : Int) : toString n = String.ofList
    (if decide (n < 0) = true then '-' :: Nat.toDigits 10 n.natAbs
      else Nat.toDigits 10 n.natAbs) := by
  cases n with
  | ofNat num =>
    have hsign : ¬ (Int.ofNat num < 0) := by simp
    rw [decide_eq_false hsign, if_neg Bool.false_ne_true]
    exact Nat.repr_eq_ofList_toDigits
  | negSucc num =>
    rw [decide_eq_true (Int.negSucc_lt_zero num), if_pos rfl, ← String.toList_inj,
      String.toList_ofList]
    have hrepr : (toString (Int.negSucc num)).toList = ("-" ++ (num + 1).repr).toList := rfl
    rw [hrepr, String.toList_append, Nat.repr_eq_ofList_toDigits]
    exact congrArg ('-' :: ·) String.toList_ofList

theorem text_eq_toString_iff (hx : x.toInt? = some n) :
    x.text = toString n ↔ decimalLength n.natAbs ≤ defaultFormat.count ∧ x ≠ negativeZero := by
  obtain ⟨ds, hds, hxtext⟩ := exists_text hx
  rw [hxtext, toString_eq, String.ofList_inj, ← hds.eq_toDigits_iff, ← isNegative_eq_iff hx,
    and_comm]
  exact signed_inj (fun _ => hds.isDigit) fun _ => isDigit_of_head

end Texts

end ContractNegotiation.Binary64
