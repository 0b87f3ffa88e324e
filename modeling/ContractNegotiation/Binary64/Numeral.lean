import ContractNegotiation.Binary64
import ContractNegotiation.Text

namespace ContractNegotiation.Binary64

open Text

def digitValue? (c : Char) : Option Nat :=
  if c.isDigit then some (c.toNat - '0'.toNat)
  else if 'a' ≤ c ∧ c ≤ 'f' then some (c.toNat - 'a'.toNat + 10)
  else if 'A' ≤ c ∧ c ≤ 'F' then some (c.toNat - 'A'.toNat + 10)
  else none

def isDigitOf (base : Nat) (c : Char) : Bool :=
  match digitValue? c with
  | some d => d < base
  | none => false

def natOfDigits (base : Nat) (cs : List Char) : Nat :=
  cs.foldl (fun n c => n * base + (digitValue? c).getD 0) 0

def takeSign : List Char → Bool × List Char
  | '-' :: rest => (true, rest)
  | '+' :: rest => (false, rest)
  | rest => (false, rest)

def exponent? (letter : Char) : List Char → Option Int
  | [] => some 0
  | c :: rest =>
    if c.toLower = letter then
      let (negative, digits) := takeSign rest
      if !digits.isEmpty && digits.all Char.isDigit then
        some (if negative then -(natOfDigits 10 digits : Int) else natOfDigits 10 digits)
      else none
    else none

def takeDigits (base : Nat) (cs : List Char) : List Char × Nat × List Char :=
  let whole := cs.takeWhile (isDigitOf base)
  match cs.dropWhile (isDigitOf base) with
  | '.' :: rest =>
    let part := rest.takeWhile (isDigitOf base)
    (whole ++ part, part.length, rest.dropWhile (isDigitOf base))
  | rest => (whole, 0, rest)

def decimal? (negative : Bool) (cs : List Char) : Option Binary64 :=
  let (digits, places, rest) := takeDigits 10 cs
  if digits.isEmpty then none
  else (exponent? 'e' rest).map fun e => ofDecimal negative (natOfDigits 10 digits) (e - places)

def hexadecimal? (negative : Bool) (cs : List Char) : Option Binary64 :=
  let (digits, places, rest) := takeDigits 16 cs
  if digits.isEmpty then none
  else (exponent? 'p' rest).map fun e => ofBinary negative (natOfDigits 16 digits) (e - 4 * places)

def payload (cs : List Char) : Nat :=
  let (base, digits) := match cs with
    | '0' :: x :: rest => if x.toLower = 'x' then (16, rest) else (8, x :: rest)
    | _ => (10, cs)
  if !digits.isEmpty && digits.all (isDigitOf base) then
    min (natOfDigits base digits) (twoTo 64 - 1)
  else 0

def isPayloadChar (c : Char) : Bool := c.isAlphanum || c = '_'

def notANumber? (negative : Bool) : List Char → Option Binary64
  | [] => some (notANumber negative 0)
  | '(' :: rest =>
    if rest.dropWhile isPayloadChar = [')'] then
      some (notANumber negative (payload (rest.takeWhile isPayloadChar)))
    else none
  | _ => none

def ofText? (cs : List Char) : Option Binary64 :=
  let (negative, rest) := takeSign (cs.dropWhile isBlank)
  if lower rest = "inf".toList ∨ lower rest = "infinity".toList then some (infinity negative)
  else if lower (rest.take 3) = "nan".toList then notANumber? negative (rest.drop 3)
  else if lower (rest.take 2) = "0x".toList then hexadecimal? negative (rest.drop 2)
  else decimal? negative rest

end ContractNegotiation.Binary64
