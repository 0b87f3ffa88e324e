import ContractNegotiation.Query.Element
import ContractNegotiation.Query.Path
import ContractNegotiation.Query.Wildcard

namespace ContractNegotiation.Query

inductive Operator where
  | equal
  | unequal
  | among
  | like
  deriving DecidableEq, Inhabited, Repr

namespace Operator

def all : List Operator := [equal, unequal, among, like]

def text : Operator → String
  | equal => "="
  | unequal => "!="
  | among => "in"
  | like => "like"

def ofText? (s : String) : Option Operator := all.find? (·.text = s)

end Operator

structure Criterion where
  path : String := ""
  op : String := "="
  operand : String := ""
  deriving DecidableEq, Inhabited, Repr

def alternatives (operand : String) : List String :=
  let cs := Text.trim operand.toList
  let inner :=
    if cs.head? = some '(' ∧ cs.getLast? = some ')' ∧ 2 ≤ cs.length then
      (cs.drop 1).dropLast
    else cs
  (Text.pieces ',' inner).map fun piece => String.ofList (Text.trim piece)

namespace Criterion

def holdsOf (c : Criterion) (values : List String) : Bool :=
  match Operator.ofText? c.op with
  | some .equal => values.any (· = c.operand)
  | some .unequal => !values.any (· = c.operand)
  | some .among => values.any (alternatives c.operand).contains
  | some .like => values.any fun v => Wildcard.matchesPattern '%' c.operand.toList v.toList
  | none => false

def holds (c : Criterion) (e : Element) : Bool :=
  c.path ≠ "" && c.holdsOf (e.values (segments c.path))

def keyword? (cs : List Char) : Option Criterion :=
  match Text.cutAt? [' '] cs with
  | none => none
  | some (path, rest) =>
    match Text.cutAt? [' '] (Text.trim rest) with
    | none => none
    | some (word, operand) =>
      let op := String.ofList (Text.lower word)
      if op = Operator.among.text ∨ op = Operator.like.text then
        some ⟨String.ofList path, op, String.ofList (Text.trim operand)⟩
      else none

def infixed? (op : Operator) (cs : List Char) : Option Criterion :=
  (Text.cutAt? op.text.toList cs).map fun (path, operand) =>
    ⟨String.ofList (Text.trim path), op.text, String.ofList (Text.trim operand)⟩

def ofText? (expression : String) : Option Criterion :=
  let cs := Text.trim expression.toList
  keyword? cs <|> infixed? .unequal cs <|> infixed? .equal cs

inductive Flaw where
  | unsupportedOperator (op : String)
  | path (error : PathError)
  deriving DecidableEq, Inhabited, Repr

def Flaw.message : Flaw → String
  | unsupportedOperator op => "unsupported filter operator '" ++ op ++ "'"
  | path error => error.message

def flaw? (c : Criterion) : Option Flaw :=
  if (Operator.ofText? c.op).isNone then some (.unsupportedOperator c.op)
  else
    match checkPath .negotiation c.path with
    | .ok () => none
    | .error error => some (.path error)

end Criterion

structure Spec where
  filter : List Criterion := []
  offset : Nat := 0
  limit : Nat := 50
  deriving DecidableEq, Inhabited, Repr

namespace Spec

def selects (q : Spec) (n : Negotiation) : Bool :=
  q.filter.all fun c => c.holds (.ofNegotiation n)

def precedes (a b : Negotiation) : Bool :=
  a.createdAt < b.createdAt || (a.createdAt = b.createdAt && a.id ≤ b.id)

/-- A page of a list. The limit may be the greatest of all words, so that it is cut to what is left
behind the offset before the two are added. -/
def page {α : Type} (offset limit : UInt64) (xs : List α) : List α :=
  let size := UInt64.ofNat xs.length
  if size ≤ offset then []
  else xs.extract offset.toNat (offset + min limit (size - offset)).toNat

def matching (q : Spec) (records : List Negotiation) : List Negotiation :=
  (records.filter q.selects).mergeSort precedes

def answer (q : Spec) (records : List Negotiation) : List Negotiation :=
  page (.ofNat q.offset) (.ofNat q.limit) (q.matching records)

end Spec

end ContractNegotiation.Query
