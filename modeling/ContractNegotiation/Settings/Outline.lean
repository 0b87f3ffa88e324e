import ContractNegotiation.Settings.Document

namespace ContractNegotiation.Outline

structure Line where
  depth : Nat
  key : String
  value : List Char
  deriving DecidableEq, Inhabited, Repr

def withoutComment (previous : Char) : List Char → List Char
  | [] => []
  | c :: rest =>
    if c = '#' ∧ Text.isBlank previous then [] else c :: withoutComment c rest

def quotation? (cs : List Char) : Option (List Char) :=
  match cs with
  | q :: rest =>
    if (q = '"' ∨ q = '\'') ∧ rest.getLast? = some q then some rest.dropLast else none
  | [] => none

def plainNode (cs : List Char) : Node :=
  match String.ofList cs with
  | "" | "null" | "~" => .null
  | text => .scalar text "?"

def valueNode (cs : List Char) : Node :=
  match quotation? cs with
  | some text => .scalar (String.ofList text) "!"
  | none => if cs = ['\x7b', '\x7d'] then .map [] else plainNode cs

def keyText (cs : List Char) : String := String.ofList ((quotation? cs).getD cs)

def line? (cs : List Char) : Except String (Option Line) :=
  let body := Text.trim (withoutComment ' ' cs)
  if body.isEmpty then .ok none
  else
    match Text.cutAt? [':'] body with
    | none => .error ("no key in line: " ++ String.ofList body)
    | some (key, value) =>
      .ok (some ⟨(cs.takeWhile (· = ' ')).length, keyText (Text.trim key), Text.trim value⟩)

def entries : List Line → List (String × Node)
  | [] => []
  | line :: rest =>
    let inner := rest.takeWhile (line.depth < ·.depth)
    (line.key, if inner.isEmpty then valueNode line.value else .map (entries inner)) ::
      entries (rest.dropWhile (line.depth < ·.depth))
  termination_by lines => lines.length
  decreasing_by
    · exact Nat.lt_succ_of_le (List.takeWhile_sublist _).length_le
    · exact Nat.lt_succ_of_le (List.dropWhile_sublist _).length_le

def ofText (text : String) : Node :=
  match (Text.pieces '\n' text.toList).mapM line? with
  | .error reason => .broken reason
  | .ok lines =>
    match lines.filterMap id with
    | [] => .null
    | lines => .map (entries lines)

end ContractNegotiation.Outline
