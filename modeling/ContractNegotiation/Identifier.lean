namespace ContractNegotiation

structure Identifier where
  bytes : Vector UInt8 16
  deriving DecidableEq, Repr

namespace Identifier

def hexDigits (b : UInt8) : List Char :=
  [Nat.digitChar (b.toNat / 16), Nat.digitChar (b.toNat % 16)]

def startsGroup (position : Nat) : Bool := position ∈ [4, 6, 8, 10]

def charsFrom (position : Nat) : List UInt8 → List Char
  | [] => []
  | b :: bytes =>
    (if startsGroup position then ['-'] else []) ++ hexDigits b ++ charsFrom (position + 1) bytes

def text (i : Identifier) : String := String.ofList (charsFrom 0 i.bytes.toList)

theorem text_ne_empty (i : Identifier) : i.text ≠ "" := by
  obtain ⟨⟨⟨bytes⟩, hsize⟩⟩ := i
  cases bytes with
  | nil => cases hsize
  | cons b bytes => simp [text, charsFrom, hexDigits]

def mark (i : Identifier) : Identifier :=
  ⟨(i.bytes.set 6 (i.bytes[6] &&& 0x0F ||| 0x40)).set 8 (i.bytes[8] &&& 0x3F ||| 0x80)⟩

def randomBytes (g : StdGen) : Nat → List UInt8 × StdGen
  | 0 => ([], g)
  | count + 1 =>
    let (b, g) := randNat g 0 255
    let (others, g) := randomBytes g count
    (UInt8.ofNat b :: others, g)

def random (g : StdGen) : Identifier × StdGen :=
  let (bytes, g) := randomBytes g 16
  (mark ⟨.ofFn fun i => bytes.getD i 0⟩, g)

def isHexDigit (c : Char) : Bool := c.isDigit || ('a' ≤ c && c ≤ 'f')

def isCanonical (s : String) : Bool :=
  s.length = 36 &&
    s.toList.zipIdx.all fun (c, position) =>
      if position ∈ [8, 13, 18, 23] then c = '-'
      else if position = 14 then c = '4'
      else if position = 19 then c ∈ ['8', '9', 'a', 'b']
      else isHexDigit c

def fourBytes (n : Nat) : List UInt8 :=
  [24, 16, 8, 0].map fun shift => UInt8.ofNat (n >>> shift)

def numbered (n : Nat) : String :=
  let shown := fourBytes n
  String.ofList (charsFrom 0 (shown ++ [0, 0, 0x40, 0, 0x80, 0, 0, 0] ++ shown))

end Identifier

end ContractNegotiation
