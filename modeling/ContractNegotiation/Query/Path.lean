import ContractNegotiation.Query.Schema
import ContractNegotiation.Text

namespace ContractNegotiation.Query

def segments (path : String) : List String :=
  (Text.pieces '.' path.toList).map String.ofList

inductive PathError where
  | empty
  | incomplete (path : String)
  | intoScalar (path field : String)
  | unknownField (path field : String)
  deriving DecidableEq, Inhabited, Repr

def PathError.message : PathError → String
  | empty => "empty filter path"
  | incomplete path => "incomplete filter path '" ++ path ++ "'"
  | intoScalar path field =>
    "filter path '" ++ path ++ "' traverses into scalar field '" ++ field ++ "'"
  | unknownField path field => "unknown field '" ++ field ++ "' in filter path '" ++ path ++ "'"

def checkBelowScalar (path field : String) : List String → Except PathError Unit
  | [] => .ok ()
  | segment :: _ => .error (if segment = "" then .incomplete path else .intoScalar path field)

def checkKeys (path : String) (keys : List String) : Except PathError Unit :=
  if keys = [] ∨ "" ∈ keys then .error (.incomplete path) else .ok ()

def checkSegments (path : String) (type : MessageType) : List String → Except PathError Unit
  | [] => .error (.incomplete path)
  | segment :: rest =>
    if segment = "" then .error (.incomplete path)
    else
      match type.field? segment with
      | none => .error (.unknownField path segment)
      | some .scalar => checkBelowScalar path segment rest
      | some .properties => checkKeys path rest
      | some (.message inner) => checkSegments path inner rest

def checkPath (type : MessageType) (path : String) : Except PathError Unit :=
  if path = "" then .error .empty else checkSegments path type (segments path)

end ContractNegotiation.Query
