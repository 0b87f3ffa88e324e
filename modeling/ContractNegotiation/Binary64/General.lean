import ContractNegotiation.Binary64

namespace ContractNegotiation.Binary64

/-- Significant digits, and the exponents from which the text is positional: below `count`, and not
below `lowest`. -/
structure GeneralFormat where
  count : Nat
  lowest : Int
  exponentDigits : Nat

def defaultFormat : GeneralFormat := ⟨6, -4, 2⟩

def floorLog10 (num den : Nat) : Int :=
  if den ≤ num then (decimalLength (num / den) : Int) - 1
  else
    let k := decimalLength (den / num)
    if num * tenTo (k - 1) = den then -((k : Int) - 1) else -(k : Int)

def significantDigits (count : Nat) (num den : Nat) : Nat × Int :=
  let k := floorLog10 num den
  let shift := (count : Int) - 1 - k
  let d := roundDiv (num * tenTo shift.toNat) (den * tenTo (-shift).toNat)
  if d = tenTo count then (tenTo (count - 1), k + 1) else (d, k)

def dropTrailingZeros (ds : List Char) : List Char :=
  (ds.reverse.dropWhile (· = '0')).reverse

def fractionText (ds : List Char) : List Char :=
  match dropTrailingZeros ds with
  | [] => []
  | kept => '.' :: kept

def exponentText (f : GeneralFormat) (k : Int) : List Char :=
  let ds := Nat.toDigits 10 k.natAbs
  'e' :: (if k < 0 then '-' else '+') :: (List.replicate (f.exponentDigits - ds.length) '0' ++ ds)

def positiveText (f : GeneralFormat) (num den : Nat) : List Char :=
  let (d, k) := significantDigits f.count num den
  let ds := Nat.toDigits 10 d
  if k < f.lowest ∨ (f.count : Int) ≤ k then
    ds.take 1 ++ fractionText (ds.drop 1) ++ exponentText f k
  else if k < 0 then
    '0' :: fractionText (List.replicate ((-k).toNat - 1) '0' ++ ds)
  else
    ds.take (k.toNat + 1) ++ fractionText (ds.drop (k.toNat + 1))

def generalText (f : GeneralFormat) (x : Binary64) : String :=
  let unsigned := match x.magnitude with
    | .nan => "nan".toList
    | .infinite => "inf".toList
    | .finite m e =>
      if m = 0 then ['0'] else positiveText f (m * twoTo e.toNat) (twoTo (-e).toNat)
  String.ofList (if x.isNegative then '-' :: unsigned else unsigned)

def text (x : Binary64) : String := generalText defaultFormat x

end ContractNegotiation.Binary64
