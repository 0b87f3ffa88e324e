import ContractNegotiation.Identifier
import Mathlib.Data.Fintype.Prod
import Mathlib.Data.List.FinRange
import Mathlib.Tactic.Common

namespace ContractNegotiation.Identifier

def digits : List Char :=
  ['0', '1', '2', '3', '4', '5', '6', '7', '8', '9', 'a', 'b', 'c', 'd', 'e', 'f']

def columns : List (Option (Fin 16 × Bool)) :=
  (List.finRange 16).flatMap fun k =>
    (if startsGroup k.val then [none] else []) ++ [some (k, true), some (k, false)]

def half (i : Identifier) : Fin 16 × Bool → Nat
  | (k, true) => i.bytes[k].toNat / 16
  | (k, false) => i.bytes[k].toNat % 16

def sign (i : Identifier) : Option (Fin 16 × Bool) → Char
  | none => '-'
  | some h => Nat.digitChar (i.half h)

def halfOfText (s : String) (h : Fin 16 × Bool) : Nat :=
  digits.idxOf (s.toList.getD (columns.idxOf (some h)) '-')

def ofText (s : String) : Identifier :=
  ⟨.ofFn fun k => UInt8.ofNat (16 * halfOfText s (k, true) + halfOfText s (k, false))⟩

def bit (i : Identifier) (p : Fin 16 × Fin 8) : Bool := i.bytes[p.1].toNat.testBit p.2

def IsFree (p : Fin 16 × Fin 8) : Prop := (p.1 = 6 → p.2 < 4) ∧ (p.1 = 8 → p.2 < 6)

instance : DecidablePred IsFree := fun _ => inferInstanceAs (Decidable (_ ∧ _))

theorem charsFrom_eq_flatMap (position : Nat) (bytes : List UInt8) :
    charsFrom position bytes = (bytes.zipIdx position).flatMap fun b =>
      (if startsGroup b.2 then ['-'] else []) ++ hexDigits b.1 := by
  induction bytes generalizing position with
  | nil => rfl
  | cons b bytes ih => simp [charsFrom, ih]

theorem half_lt (i : Identifier) (h : Fin 16 × Bool) : i.half h < 16 := by
  obtain ⟨k, _ | _⟩ := h
  · exact Nat.mod_lt _ (by decide)
  · exact Nat.div_lt_of_lt_mul i.bytes[k].toNat_lt

theorem halves_eq (i : Identifier) (k : Fin 16) :
    16 * i.half (k, true) + i.half (k, false) = i.bytes[k].toNat := Nat.div_add_mod _ _

theorem toList_text (i : Identifier) : i.text.toList = columns.map i.sign := by
  have hbytes : i.bytes.toList.zipIdx = (List.finRange 16).map fun k => (i.bytes[k], k.val) := by
    apply List.ext_getElem <;> simp
  rw [text, String.toList_ofList, charsFrom_eq_flatMap, hbytes, List.flatMap_map, columns,
    List.map_flatMap]
  refine List.flatMap_congr fun k _ => ?_
  dsimp only
  split <;> rfl

theorem getElem?_text (i : Identifier) (n : Nat) :
    i.text.toList[n]? = columns[n]?.map i.sign := by
  rw [toList_text, List.getElem?_map]

theorem length_columns : columns.length = 36 := by decide

theorem none_mem_columns : ∀ n < 36, columns[n]? = some none ↔ n ∈ [8, 13, 18, 23] := by decide

theorem some_mem_columns (h : Fin 16 × Bool) : some h ∈ columns := by
  obtain ⟨k, upper⟩ := h
  refine List.mem_flatMap.mpr ⟨k, List.mem_finRange k, List.mem_append_right _ ?_⟩
  cases upper <;> simp

theorem idxOf_digitChar : ∀ d < 16, digits.idxOf (Nat.digitChar d) = d := by decide

theorem digitChar_mem : ∀ d < 16, Nat.digitChar d ∈ digits := by decide

theorem halfOfText_text (i : Identifier) (h : Fin 16 × Bool) :
    halfOfText i.text h = i.half h := by
  have hcolumn : columns[columns.idxOf (some h)]? = some (some h) :=
    List.getElem?_idxOf (some_mem_columns h)
  rw [halfOfText, List.getD_eq_getElem?_getD, getElem?_text, hcolumn]
  exact idxOf_digitChar _ (i.half_lt h)

theorem ofText_text (i : Identifier) : ofText i.text = i := by
  obtain ⟨bytes⟩ := i
  refine congrArg mk (Vector.ext fun k hk => ?_)
  rw [Vector.getElem_ofFn, halfOfText_text, halfOfText_text, halves_eq _ ⟨k, hk⟩]
  exact UInt8.ofNat_toNat

theorem sign_text (i : Identifier) {n : Nat} {c : Char} (h : i.text.toList[n]? = some c) :
    if n ∈ [8, 13, 18, 23] then c = '-' else c ∈ digits := by
  rw [getElem?_text] at h
  obtain ⟨column, hcolumn, rfl⟩ := Option.map_eq_some_iff.mp h
  have hn : n < 36 := length_columns ▸ (List.getElem?_eq_some_iff.mp hcolumn).1
  have hdash := none_mem_columns n hn
  cases column with
  | none => rw [if_pos (hdash.mp hcolumn), sign]
  | some part =>
    rw [if_neg fun hmem => by simp [hdash.mpr hmem] at hcolumn]
    exact digitChar_mem _ (i.half_lt part)

theorem getElem_mark (i : Identifier) (k : Fin 16) : (mark i).bytes[k] =
    if k = 8 then i.bytes[(8 : Fin 16)] &&& 0x3F ||| 0x80
    else if k = 6 then i.bytes[(6 : Fin 16)] &&& 0x0F ||| 0x40 else i.bytes[k] := by
  obtain ⟨k, hk⟩ := k
  simp only [mark, Fin.getElem_fin, Vector.getElem_set, Fin.ext_iff, eq_comm (b := k)]
  rfl

theorem masked_eq_add (x keep a : Nat) :
    x &&& 2 ^ keep - 1 ||| 2 ^ keep * a = 2 ^ keep * a + x % 2 ^ keep := by
  rw [Nat.and_two_pow_sub_one_eq_mod, Nat.or_comm,
    ← Nat.two_pow_add_eq_or_of_lt (Nat.mod_lt _ (Nat.two_pow_pos keep))]

theorem testBit_masked (x a : Nat) {keep j : Nat} (h : j < keep) :
    (2 ^ keep * a + x % 2 ^ keep).testBit j = x.testBit j := by
  rw [Nat.testBit_two_pow_mul_add _ (Nat.mod_lt _ (Nat.two_pow_pos keep)), if_pos h,
    Nat.testBit_mod_two_pow, decide_eq_true h, Bool.true_and]

theorem toNat_version (i : Identifier) :
    (mark i).bytes[(6 : Fin 16)].toNat = 2 ^ 4 * 4 + i.bytes[(6 : Fin 16)].toNat % 2 ^ 4 :=
  (congrArg UInt8.toNat (i.getElem_mark 6)).trans (masked_eq_add _ 4 4)

theorem toNat_variant (i : Identifier) :
    (mark i).bytes[(8 : Fin 16)].toNat = 2 ^ 6 * 2 + i.bytes[(8 : Fin 16)].toNat % 2 ^ 6 :=
  (congrArg UInt8.toNat (i.getElem_mark 8)).trans (masked_eq_add _ 6 2)

theorem bit_mark (i : Identifier) {p : Fin 16 × Fin 8} (h : IsFree p) :
    (mark i).bit p = i.bit p := by
  obtain ⟨k, j⟩ := p
  obtain ⟨hversion, hvariant⟩ := h
  unfold bit
  by_cases h8 : k = 8
  · subst h8
    have hbit : j.val < 6 := hvariant rfl
    rw [toNat_variant, testBit_masked _ _ hbit]
  by_cases h6 : k = 6
  · subst h6
    have hbit : j.val < 4 := hversion rfl
    rw [toNat_version, testBit_masked _ _ hbit]
  · rw [getElem_mark, if_neg h8, if_neg h6]

theorem columns_marked :
    columns[14]? = some (some (6, true)) ∧ columns[19]? = some (some (8, true)) := ⟨rfl, rfl⟩

theorem version_text (i : Identifier) : (mark i).text.toList[14]? = some '4' := by
  have hversion := i.toNat_version
  have hhalf : (mark i).half (6, true) = 4 := by
    rw [half]
    omega
  rw [getElem?_text, columns_marked.1, Option.map_some, sign, hhalf]
  rfl

theorem variant_text (i : Identifier) :
    ∃ c ∈ ['8', '9', 'a', 'b'], (mark i).text.toList[19]? = some c := by
  have hvariant := i.toNat_variant
  obtain ⟨d, hd, hhalf⟩ : ∃ d < 4, (mark i).half (8, true) = 8 + d := by
    refine ⟨i.bytes[(8 : Fin 16)].toNat % 2 ^ 6 / 2 ^ 4, by omega, ?_⟩
    rw [half]
    omega
  have hdigits : ∀ d < 4, Nat.digitChar (8 + d) ∈ ['8', '9', 'a', 'b'] := by decide
  refine ⟨_, hdigits d hd, ?_⟩
  rw [getElem?_text, columns_marked.2, Option.map_some, sign, hhalf]

theorem length_text (i : Identifier) : i.text.length = 36 := by
  rw [← String.length_toList, toList_text, List.length_map, length_columns]

theorem isCanonical_mark (i : Identifier) : isCanonical (mark i).text = true := by
  have hdigits : ∀ c ∈ digits, isHexDigit c = true := List.all_eq_true.mp rfl
  rw [isCanonical, length_text, decide_eq_true rfl, Bool.true_and, List.all_eq_true]
  rintro ⟨c, n⟩ hmem
  have hc : (mark i).text.toList[n]? = some c := List.mem_zipIdx_iff_getElem?.mp hmem
  have hsign := sign_text _ hc
  dsimp only
  split_ifs with hdash hversion hvariant
  · exact decide_eq_true (by rwa [if_pos hdash] at hsign)
  · subst hversion
    exact decide_eq_true (Option.some.inj (hc.symm.trans i.version_text))
  · subst hvariant
    obtain ⟨c', hmem, hc'⟩ := i.variant_text
    obtain rfl := Option.some.inj (hc.symm.trans hc')
    exact decide_eq_true hmem
  · exact hdigits c (by rwa [if_neg hdash] at hsign)

theorem isCanonical_random (g : StdGen) : isCanonical (random g).1.text = true :=
  isCanonical_mark _

/-- The text of sixteen bytes, of which it shows all: digits and four dashes. Marked bytes show
their version and variant, and the text still shows all other bits that were drawn. -/
theorem text_faithful (i : Identifier) :
    (i.text.length = 36 ∧ ∀ n c, i.text.toList[n]? = some c →
      if n ∈ [8, 13, 18, 23] then c = '-' else c ∈ digits) ∧
    (ofText i.text = i ∧ ∀ j : Identifier, j.text = i.text → j = i) ∧
    (mark i).text.toList[14]? = some '4' ∧
    (∃ c ∈ ['8', '9', 'a', 'b'], (mark i).text.toList[19]? = some c) ∧
    (∀ p, IsFree p → (ofText (mark i).text).bit p = i.bit p) ∧
    (Finset.univ.filter IsFree).card = 122 := by
  refine ⟨⟨i.length_text, fun _ _ => i.sign_text⟩, ⟨i.ofText_text, fun j hj => ?_⟩, i.version_text,
    i.variant_text, fun p hp => ?_, by decide +kernel⟩
  · rw [← j.ofText_text, hj, i.ofText_text]
  · rw [ofText_text, i.bit_mark hp]

end ContractNegotiation.Identifier
