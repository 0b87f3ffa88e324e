namespace ContractNegotiation

structure Binary64 where
  bits : UInt64
  deriving DecidableEq, Inhabited, Repr

namespace Binary64

def twoTo (k : Nat) : Nat := Nat.pow 2 k

def tenTo (k : Nat) : Nat := Nat.pow 10 k

inductive Magnitude where
  | nan
  | infinite
  | finite (significand : Nat) (exponent : Int)
  deriving DecidableEq, Repr

def isNegative (x : Binary64) : Bool := twoTo 63 ≤ x.bits.toNat

def fraction (x : Binary64) : Nat := x.bits.toNat % twoTo 52

def exponentField (x : Binary64) : Nat := x.bits.toNat / twoTo 52 % twoTo 11

def magnitude (x : Binary64) : Magnitude :=
  if x.exponentField = 2047 then if x.fraction = 0 then .infinite else .nan
  else if x.exponentField = 0 then .finite x.fraction (-1074)
  else .finite (twoTo 52 + x.fraction) (x.exponentField - 1075)

def ofWord (negative : Bool) (word : Nat) : Binary64 :=
  ⟨UInt64.ofNat (word + if negative then twoTo 63 else 0)⟩

def infinityWord : Nat := 2047 * twoTo 52

def roundDiv (num den : Nat) : Nat :=
  let q := num / den
  let r := num % den
  if den < 2 * r ∨ (2 * r = den ∧ q % 2 = 1) then q + 1 else q

def floorLog2 (num den : Nat) : Int :=
  let k : Int := (num.log2 : Int) - den.log2
  if den * twoTo k.toNat ≤ num * twoTo (-k).toNat then k else k - 1

def wordOfRatio (num den : Nat) : Nat :=
  if num = 0 then 0
  else
    let e := max (floorLog2 num den - 52) (-1074)
    let q := roundDiv (num * twoTo (-e).toNat) (den * twoTo e.toNat)
    min ((e + 1074).toNat * twoTo 52 + q) infinityWord

def decimalLength (m : Nat) : Nat := (Nat.toDigits 10 m).length

def ofDecimal (negative : Bool) (m : Nat) (e : Int) : Binary64 :=
  ofWord negative <|
    if m = 0 then 0
    else if 310 < decimalLength m + e then infinityWord
    else if decimalLength m + e < -330 then 0
    else wordOfRatio (m * tenTo e.toNat) (tenTo (-e).toNat)

def ofBinary (negative : Bool) (m : Nat) (e : Int) : Binary64 :=
  ofWord negative <|
    if m = 0 then 0
    else if 1030 < m.log2 + e then infinityWord
    else if m.log2 + e < -1080 then 0
    else wordOfRatio (m * twoTo e.toNat) (twoTo (-e).toNat)

def ofInt (n : Int) : Binary64 := ofBinary (decide (n < 0)) n.natAbs 0

def infinity (negative : Bool) : Binary64 := ofWord negative infinityWord

def notANumber (negative : Bool) (payload : Nat) : Binary64 :=
  ofWord negative (infinityWord + twoTo 51 + payload % twoTo 51)

def toInt? (x : Binary64) : Option Int :=
  match x.magnitude with
  | .finite m e =>
    let num := m * twoTo e.toNat
    let den := twoTo (-e).toNat
    if num % den = 0 then some (if x.isNegative then -(num / den : Nat) else (num / den : Nat))
    else none
  | _ => none

def negativeZero : Binary64 := ⟨0x8000000000000000⟩

end Binary64

end ContractNegotiation
