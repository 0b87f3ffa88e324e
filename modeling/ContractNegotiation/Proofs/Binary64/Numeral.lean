import ContractNegotiation.Binary64.Numeral
import ContractNegotiation.Proofs.Text

namespace ContractNegotiation.Binary64

open Text

inductive Sign : List Char → Bool → Prop
  | absent : Sign [] false
  | plus : Sign ['+'] false
  | minus : Sign ['-'] true

inductive Fraction (base : Nat) : List Char → List Char → Nat → Prop
  | whole {digits : List Char} (h : ∀ c ∈ digits, isDigitOf base c = true) :
    Fraction base digits digits 0
  | pointed {before after : List Char} (hbefore : ∀ c ∈ before, isDigitOf base c = true)
      (hafter : ∀ c ∈ after, isDigitOf base c = true) :
    Fraction base (before ++ '.' :: after) (before ++ after) after.length

inductive Exponent (letter : Char) : List Char → Int → Prop
  | absent : Exponent letter [] 0
  | shown {c : Char} {sign digits : List Char} {negative : Bool} (hletter : c.toLower = letter)
      (hsign : Sign sign negative) (hne : digits ≠ []) (h : ∀ c ∈ digits, c.isDigit = true) :
    Exponent letter (c :: (sign ++ digits))
      (if negative then -(natOfDigits 10 digits : Int) else natOfDigits 10 digits)

inductive Scaled (base : Nat) (letter : Char) : List Char → List Char → Nat → Int → Prop
  | mk {shown digits tail : List Char} {places : Nat} {e : Int}
      (hshown : Fraction base shown digits places) (hne : digits ≠ [])
      (htail : Exponent letter tail e) : Scaled base letter (shown ++ tail) digits places e

inductive Unsigned (negative : Bool) : List Char → Binary64 → Prop
  | decimal {cs digits : List Char} {places : Nat} {e : Int}
      (h : Scaled 10 'e' cs digits places e) :
    Unsigned negative cs (ofDecimal negative (natOfDigits 10 digits) (e - places))
  | hexadecimal {cs mark digits : List Char} {places : Nat} {e : Int}
      (hmark : lower mark = "0x".toList) (h : Scaled 16 'p' cs digits places e) :
    Unsigned negative (mark ++ cs) (ofBinary negative (natOfDigits 16 digits) (e - 4 * places))
  | infinity {cs : List Char} (h : lower cs = "inf".toList ∨ lower cs = "infinity".toList) :
    Unsigned negative cs (infinity negative)
  | notANumber {cs : List Char} (h : lower cs = "nan".toList) :
    Unsigned negative cs (notANumber negative 0)
  | payload {word inside : List Char} (hword : lower word = "nan".toList)
      (hinside : ∀ c ∈ inside, isPayloadChar c = true) :
    Unsigned negative (word ++ '(' :: (inside ++ [')'])) (notANumber negative (payload inside))

inductive Numeral : List Char → Binary64 → Prop
  | mk {blanks sign cs : List Char} {negative : Bool} {x : Binary64}
      (hblanks : ∀ c ∈ blanks, isBlank c = true) (hsign : Sign sign negative)
      (h : Unsigned negative cs x) : Numeral (blanks ++ (sign ++ cs)) x

variable {base places : Nat} {c d letter : Char} {negative : Bool} {e : Int} {x : Binary64}
variable {cs shown digits rest : List Char}

section Letters

theorem cases_of_toLower (h : c.toLower = d) : c = d ∨ c.val = d.val - 32 := by
  subst h
  by_cases hupper : c.val ≥ 'A'.val ∧ c.val ≤ 'Z'.val
  · have hlower : c.toLower.val = c.val + 32 := congrArg Char.val (dif_pos hupper)
    exact .inr (by rw [hlower, UInt32.add_sub_cancel])
  · have hsame : c.toLower = c := dif_neg hupper
    exact .inl hsame.symm

structure Leading (c : Char) : Prop where
  notBlank : isBlank c = false
  notPlus : c ≠ '+'
  notMinus : c ≠ '-'

theorem leading_of_toLower (h : c.toLower = d) (hd : Leading d) : Leading c := by
  subst h
  refine ⟨?_, ?_, ?_⟩
  · rw [← Bool.not_eq_true]
    intro hblank
    have := hd.notBlank
    rw [toLower_of_isBlank hblank, hblank] at this
    cases this
  · rintro rfl
    exact hd.notPlus rfl
  · rintro rfl
    exact hd.notMinus rfl

theorem leading_of_lower {word letters : List Char} (h : lower word = d :: letters)
    (hd : Leading d) : ∀ c ∈ word.head?, Leading c := by
  cases word with
  | nil => cases h
  | cons c word =>
    rintro _ ⟨⟩
    exact leading_of_toLower (List.cons.inj h).1 hd

theorem zero_le_of_isDigitOf (h : isDigitOf base c = true) : '0' ≤ c := by
  unfold isDigitOf digitValue? at h
  split_ifs at h with hdigit hlower hupper
  · simp only [Char.isDigit, Bool.and_eq_true, decide_eq_true_eq] at hdigit
    exact hdigit.1
  · exact Char.le_trans (by decide) hlower.1
  · exact Char.le_trans (by decide) hupper.1

theorem leading_of_zero_le (h : '0' ≤ c) : Leading c := by
  refine ⟨?_, ?_, ?_⟩
  · rw [← Bool.not_eq_true, isBlank, Bool.or_eq_true, Bool.and_eq_true, decide_eq_true_eq,
      decide_eq_true_eq, decide_eq_true_eq]
    rintro (rfl | ⟨-, hc⟩)
    · exact absurd h (by decide)
    · exact absurd (Char.le_trans h hc) (by decide)
  all_goals
    rintro rfl
    exact absurd h (by decide)

end Letters

section Signs

theorem sign_takeSign (cs : List Char) :
    ∃ sign, Sign sign (takeSign cs).1 ∧ cs = sign ++ (takeSign cs).2 := by
  unfold takeSign
  split
  · exact ⟨_, .minus, rfl⟩
  · exact ⟨_, .plus, rfl⟩
  · exact ⟨_, .absent, rfl⟩

theorem takeSign_append {sign : List Char} (hsign : Sign sign negative)
    (h : ∀ c ∈ cs.head?, c ≠ '+' ∧ c ≠ '-') : takeSign (sign ++ cs) = (negative, cs) := by
  cases hsign with
  | plus => rfl
  | minus => rfl
  | absent =>
    cases cs with
    | nil => rfl
    | cons c cs =>
      obtain ⟨hplus, hminus⟩ := h c rfl
      simp only [List.nil_append]
      unfold takeSign
      split
      · rename_i heq
        exact absurd (List.cons.inj heq).1 hminus
      · rename_i heq
        exact absurd (List.cons.inj heq).1 hplus
      · rfl

end Signs

theorem exponent?_iff : exponent? letter cs = some e ↔ Exponent letter cs e := by
  constructor
  · intro h
    cases cs with
    | nil =>
      obtain rfl : 0 = e := by simpa [exponent?] using h
      exact .absent
    | cons c cs =>
      obtain ⟨sign, hsign, hcs⟩ := sign_takeSign cs
      simp only [exponent?] at h
      split at h
      · rename_i hletter
        split at h
        · rename_i hdigits
          simp only [Bool.and_eq_true, Bool.not_eq_true', List.isEmpty_eq_false_iff,
            List.all_eq_true] at hdigits
          rw [hcs, ← Option.some.inj h]
          exact .shown hletter hsign hdigits.1 hdigits.2
        · cases h
      · cases h
  · rintro (_ | ⟨hletter, hsign, hne, hdigits⟩)
    · rfl
    · rename_i sign digits negative
      have htake : takeSign (sign ++ digits) = (negative, digits) := by
        refine takeSign_append hsign fun c hc => ?_
        have hdigit := hdigits c (List.mem_of_head? hc)
        constructor
        all_goals
          rintro rfl
          revert hdigit
          decide
      simp only [exponent?, hletter, if_true, htake]
      rw [if_pos (by simpa [hne] using hdigits)]

section Digits

theorem isDigitOf_point (base : Nat) : isDigitOf base '.' = false := rfl

theorem fraction_takeDigits (base : Nat) (cs : List Char) : ∃ shown,
    Fraction base shown (takeDigits base cs).1 (takeDigits base cs).2.1 ∧
      cs = shown ++ (takeDigits base cs).2.2 := by
  have hwhole : ∀ c ∈ cs.takeWhile (isDigitOf base), isDigitOf base c = true :=
    fun _ => List.mem_takeWhile_imp
  have hcs : cs.takeWhile (isDigitOf base) ++ cs.dropWhile (isDigitOf base) = cs :=
    List.takeWhile_append_dropWhile
  unfold takeDigits
  split
  · rename_i rest hrest
    refine ⟨_, .pointed hwhole fun _ => List.mem_takeWhile_imp, ?_⟩
    rw [List.append_assoc, List.cons_append, List.takeWhile_append_dropWhile, ← hrest, hcs]
  · exact ⟨_, .whole hwhole, hcs.symm⟩

theorem takeDigits_append (h : Fraction base shown digits places)
    (hrest : ∀ c ∈ rest.head?, isDigitOf base c = false ∧ c ≠ '.') :
    takeDigits base (shown ++ rest) = (digits, places, rest) := by
  have hdrop : rest.dropWhile (isDigitOf base) = rest := dropWhile_of_head fun c hc =>
    (hrest c hc).1
  have htake : rest.takeWhile (isDigitOf base) = [] := by
    simpa [hdrop] using List.takeWhile_append_dropWhile (p := isDigitOf base) (l := rest)
  cases h with
  | whole hdigits =>
    unfold takeDigits
    simp only [List.takeWhile_append_of_pos hdigits, List.dropWhile_append_of_pos hdigits, htake,
      hdrop, List.append_nil]
    split
    · rename_i rest'
      exact absurd rfl (hrest '.' rfl).2
    · rfl
  | pointed hbefore hafter =>
    unfold takeDigits
    simp only [List.append_assoc, List.cons_append, List.takeWhile_append_of_pos hbefore,
      List.dropWhile_append_of_pos hbefore, List.takeWhile_cons, List.dropWhile_cons,
      isDigitOf_point, Bool.false_eq_true, if_false, List.append_nil,
      List.takeWhile_append_of_pos hafter, List.dropWhile_append_of_pos hafter, htake, hdrop]

theorem scaled_iff (hletter : ∀ c : Char, c.toLower = letter → isDigitOf base c = false ∧ c ≠ '.') :
    Scaled base letter cs digits places e ↔ digits ≠ [] ∧
      ∃ rest, takeDigits base cs = (digits, places, rest) ∧ exponent? letter rest = some e := by
  constructor
  · rintro ⟨hshown, hne, htail⟩
    refine ⟨hne, _, takeDigits_append hshown fun c hc => ?_, exponent?_iff.mpr htail⟩
    cases htail with
    | absent => cases hc
    | shown hc' =>
      cases hc
      exact hletter _ hc'
  · rintro ⟨hne, rest, htake, hexp⟩
    obtain ⟨shown, hshown, hcs⟩ := fraction_takeDigits base cs
    rw [htake] at hshown hcs
    rw [hcs]
    exact ⟨hshown, hne, exponent?_iff.mp hexp⟩

theorem Fraction.mem (h : Fraction base shown digits places) (hc : c ∈ shown) :
    isDigitOf base c = true ∨ c = '.' := by
  cases h with
  | whole hdigits => exact .inl (hdigits c hc)
  | pointed hbefore hafter =>
    rcases List.mem_append.mp hc with hc | hc
    · exact .inl (hbefore c hc)
    · rcases List.mem_cons.mp hc with rfl | hc
      · exact .inr rfl
      · exact .inl (hafter c hc)

theorem Fraction.ne_nil (h : Fraction base shown digits places) (hne : digits ≠ []) :
    shown ≠ [] := by
  cases h with
  | whole => exact hne
  | pointed => simp

theorem scale_iff (f : List Char → Nat → Int → Binary64)
    (hletter : ∀ c : Char, c.toLower = letter → isDigitOf base c = false ∧ c ≠ '.') :
    (match takeDigits base cs with
      | (digits, places, rest) =>
        if digits.isEmpty then none else (exponent? letter rest).map (f digits places)) = some x ↔
    ∃ digits places e, Scaled base letter cs digits places e ∧ f digits places e = x := by
  simp only [scaled_iff hletter]
  obtain ⟨digits, places, rest⟩ := takeDigits base cs
  cases digits with
  | nil => simp
  | cons c digits => simp

theorem decimal?_iff : decimal? negative cs = some x ↔ ∃ digits places e,
    Scaled 10 'e' cs digits places e ∧
      ofDecimal negative (natOfDigits 10 digits) (e - places) = x := by
  refine scale_iff (fun digits places e => ofDecimal negative (natOfDigits 10 digits) (e - places))
    fun c hc => ?_
  rcases cases_of_toLower hc with rfl | hc
  · decide
  · obtain rfl : c = 'E' := Char.ext hc
    decide

theorem hexadecimal?_iff : hexadecimal? negative cs = some x ↔ ∃ digits places e,
    Scaled 16 'p' cs digits places e ∧
      ofBinary negative (natOfDigits 16 digits) (e - 4 * places) = x := by
  refine scale_iff
    (fun digits places e => ofBinary negative (natOfDigits 16 digits) (e - 4 * places))
      fun c hc => ?_
  rcases cases_of_toLower hc with rfl | hc
  · decide
  · obtain rfl : c = 'P' := Char.ext hc
    decide

end Digits

section Bodies

def unsigned? (negative : Bool) (cs : List Char) : Option Binary64 :=
  if lower cs = "inf".toList ∨ lower cs = "infinity".toList then some (infinity negative)
  else if lower (cs.take 3) = "nan".toList then notANumber? negative (cs.drop 3)
  else if lower (cs.take 2) = "0x".toList then hexadecimal? negative (cs.drop 2)
  else decimal? negative cs

theorem ofText?_eq (cs : List Char) : ofText? cs =
    unsigned? (takeSign (cs.dropWhile isBlank)).1 (takeSign (cs.dropWhile isBlank)).2 := rfl

theorem notANumber?_iff : notANumber? negative cs = some x ↔
    (cs = [] ∧ notANumber negative 0 = x) ∨
      ∃ inside, cs = '(' :: (inside ++ [')']) ∧ (∀ c ∈ inside, isPayloadChar c = true) ∧
        notANumber negative (payload inside) = x := by
  constructor
  · intro h
    unfold notANumber? at h
    split at h
    · exact .inl ⟨rfl, Option.some.inj h⟩
    · rename_i rest
      split at h
      · rename_i hend
        refine .inr ⟨rest.takeWhile isPayloadChar, ?_, fun _ => List.mem_takeWhile_imp,
          Option.some.inj h⟩
        rw [← hend, List.takeWhile_append_dropWhile]
      · cases h
    · cases h
  · rintro (⟨rfl, rfl⟩ | ⟨inside, rfl, hinside, rfl⟩)
    · rfl
    · have hend : isPayloadChar ')' = false := by decide
      simp [notANumber?, List.dropWhile_append_of_pos hinside, List.takeWhile_append_of_pos hinside,
        hend]

theorem unsigned_of_unsigned? (h : unsigned? negative cs = some x) : Unsigned negative cs x := by
  unfold unsigned? at h
  split_ifs at h with hinf hnan hhex
  · obtain rfl := Option.some.inj h
    exact .infinity hinf
  · rw [← List.take_append_drop 3 cs]
    rcases notANumber?_iff.mp h with ⟨hrest, rfl⟩ | ⟨inside, hrest, hinside, rfl⟩
    · rw [hrest, List.append_nil]
      exact .notANumber hnan
    · rw [hrest]
      exact .payload hnan hinside
  · rw [← List.take_append_drop 2 cs]
    obtain ⟨digits, places, e, hscaled, rfl⟩ := hexadecimal?_iff.mp h
    exact .hexadecimal hhex hscaled
  · obtain ⟨digits, places, e, hscaled, rfl⟩ := decimal?_iff.mp h
    exact .decimal hscaled

theorem le_nine_of_isDigitOf (h : isDigitOf 10 c = true) : c ≤ '9' := by
  unfold isDigitOf digitValue? at h
  split_ifs at h with hdigit hlower hupper
  · simp only [Char.isDigit, Bool.and_eq_true, decide_eq_true_eq] at hdigit
    exact hdigit.2
  all_goals
    simp only [decide_eq_true_eq] at h
    omega

theorem Exponent.mem (h : Exponent letter cs e) (hc : c ∈ cs) : c ≤ '9' ∨ c.toLower = letter := by
  cases h with
  | absent => cases hc
  | shown hletter hsign _ hdigits =>
    simp only [List.mem_cons, List.mem_append] at hc
    rcases hc with rfl | hc | hc
    · exact .inr hletter
    · have hmem : c = '+' ∨ c = '-' := by
        cases hsign <;> simp_all
      rcases hmem with rfl | rfl
      all_goals exact .inl (by decide)
    · have hdigit := hdigits c hc
      simp only [Char.isDigit, Bool.and_eq_true, decide_eq_true_eq] at hdigit
      exact .inl hdigit.2

theorem Scaled.notMem_lower (h : Scaled 10 'e' cs digits places e) :
    'n' ∉ lower cs ∧ 'x' ∉ lower cs := by
  have hmem : ∀ c ∈ cs, c ≤ '9' ∨ c.toLower = 'e' := by
    cases h with
    | mk hshown _ htail =>
      intro c hc
      rcases List.mem_append.mp hc with hc | hc
      · rcases hshown.mem hc with hc | rfl
        · exact .inl (le_nine_of_isDigitOf hc)
        · exact .inl (by decide)
      · exact htail.mem hc
  constructor
  · intro hn
    obtain ⟨c, hc, hn⟩ := List.mem_map.mp hn
    have hword := hmem c hc
    rcases cases_of_toLower hn with rfl | hn
    · exact absurd hword (by decide)
    · obtain rfl : c = 'N' := Char.ext hn
      exact absurd hword (by decide)
  · intro hx
    obtain ⟨c, hc, hx⟩ := List.mem_map.mp hx
    have hword := hmem c hc
    rcases cases_of_toLower hx with rfl | hx
    · exact absurd hword (by decide)
    · obtain rfl : c = 'X' := Char.ext hx
      exact absurd hword (by decide)

theorem lower_append (cs rest : List Char) : lower (cs ++ rest) = lower cs ++ lower rest :=
  List.map_append

theorem lower_take (n : Nat) (cs : List Char) : lower (cs.take n) = (lower cs).take n :=
  List.map_take

theorem length_of_lower {word : List Char} {letters : String} (h : lower word = letters.toList) :
    word.length = letters.length := by
  rw [← String.length_toList, ← h, lower, List.length_map]

theorem unsigned?_of_unsigned (h : Unsigned negative cs x) : unsigned? negative cs = some x := by
  unfold unsigned?
  cases h with
  | decimal h =>
    obtain ⟨hn, hx⟩ := h.notMem_lower
    rw [if_neg, if_neg, if_neg]
    · exact decimal?_iff.mpr ⟨_, _, _, h, rfl⟩
    · intro hhex
      have hmem : 'x' ∈ lower (cs.take 2) := by simp [hhex]
      exact hx (List.map_subset _ (List.take_subset 2 cs) hmem)
    · intro hnan
      have hmem : 'n' ∈ lower (cs.take 3) := by simp [hnan]
      exact hn (List.map_subset _ (List.take_subset 3 cs) hmem)
    · rintro (hinf | hinf)
      all_goals
        rw [hinf] at hn
        exact hn (by decide)
  | @hexadecimal cs mark _ _ _ hmark h =>
    have hlength : mark.length = 2 := length_of_lower hmark
    have hlower : lower (mark ++ cs) = '0' :: 'x' :: lower cs := by
      simp [lower_append, hmark]
    rw [if_neg, if_neg, if_pos, List.drop_left' hlength]
    · exact hexadecimal?_iff.mpr ⟨_, _, _, h, rfl⟩
    · rwa [List.take_left' hlength]
    · simp [lower_take, hlower]
    · simp [hlower]
  | infinity h => rw [if_pos h]
  | notANumber h =>
    have hlength : cs.length = 3 := length_of_lower h
    rw [if_neg, if_pos]
    · rw [List.drop_of_length_le hlength.le]
      rfl
    · rwa [List.take_of_length_le hlength.le]
    · rw [h]
      decide
  | @payload word inside hword hinside =>
    have hlength : word.length = 3 := length_of_lower hword
    rw [if_neg, if_pos, List.drop_left' hlength]
    · exact notANumber?_iff.mpr (.inr ⟨_, rfl, hinside, rfl⟩)
    · rwa [List.take_left' hlength]
    · simp [lower_append, hword]

theorem Unsigned.leading (h : Unsigned negative cs x) : ∀ c ∈ cs.head?, Leading c := by
  have hletter : ∀ d ∈ ['0', 'i', 'n'], Leading d := by
    intro d hd
    simp only [List.mem_cons, List.not_mem_nil, or_false] at hd
    rcases hd with rfl | rfl | rfl
    all_goals exact ⟨by decide, by decide, by decide⟩
  cases h with
  | decimal h =>
    obtain ⟨hshown, hne, -⟩ := h
    intro c hc
    rw [List.head?_append_of_ne_nil _ (hshown.ne_nil hne)] at hc
    rcases hshown.mem (List.mem_of_head? hc) with hc | rfl
    · exact leading_of_zero_le (zero_le_of_isDigitOf hc)
    · exact ⟨by decide, by decide, by decide⟩
  | @hexadecimal cs mark _ _ _ hmark h =>
    intro c hc
    rw [List.head?_append_of_ne_nil] at hc
    · exact leading_of_lower hmark (hletter '0' (by decide)) c hc
    · rintro rfl
      cases hmark
  | infinity h =>
    rcases h with h | h
    all_goals exact leading_of_lower h (hletter 'i' (by decide))
  | notANumber h => exact leading_of_lower h (hletter 'n' (by decide))
  | @payload word inside hword hinside =>
    intro c hc
    rw [List.head?_append_of_ne_nil] at hc
    · exact leading_of_lower hword (hletter 'n' (by decide)) c hc
    · rintro rfl
      cases hword

end Bodies

theorem ofText?_iff : ofText? cs = some x ↔ Numeral cs x := by
  constructor
  · intro h
    rw [ofText?_eq] at h
    obtain ⟨sign, hsign, hrest⟩ := sign_takeSign (cs.dropWhile isBlank)
    rw [← List.takeWhile_append_dropWhile (p := isBlank) (l := cs), hrest]
    exact .mk (fun _ => List.mem_takeWhile_imp) hsign (unsigned_of_unsigned? h)
  · rintro ⟨hblanks, hsign, h⟩
    rename_i blanks sign cs negative
    -- No blank and no sign can be taken off the number itself.
    have hlead := h.leading
    have hdrop : (blanks ++ (sign ++ cs)).dropWhile isBlank = sign ++ cs := by
      rw [List.dropWhile_append_of_pos hblanks]
      refine dropWhile_of_head ?_
      cases hsign with
      | absent => exact fun c hc => (hlead c hc).notBlank
      | plus => simp [isBlank]
      | minus => simp [isBlank]
    rw [ofText?_eq, hdrop,
      takeSign_append hsign fun c hc => ⟨(hlead c hc).notPlus, (hlead c hc).notMinus⟩]
    exact unsigned?_of_unsigned h

end ContractNegotiation.Binary64
