import ContractNegotiation.Binary64.Numeral
import ContractNegotiation.Value

namespace ContractNegotiation

inductive Node where
  | null
  | scalar (text tag : String)
  | list (items : List Node)
  | map (entries : List (String × Node))
  | broken (reason : String)
  deriving Inhabited

namespace Node

def number? (text : String) : Option Binary64 :=
  let seen := (Text.terminated text).toList
  if text = "" then none
  else if seen = [] then some (Binary64.ofInt 0)
  else Binary64.ofText? seen

/-- Truth values go by their texts alone; only then does a quoted scalar stay a text. -/
def scalarValue (text tag : String) : Value :=
  if text = "true" then .bool true
  else if text = "false" then .bool false
  else if tag = "!" then .text text
  else
    match number? text with
    | some x => .number x
    | none => .text text

def entryOf (entries : List (String × Value)) (key : String) : Value :=
  (entries.lookup key).getD .null

def setEntry (key : String) (v : Value) : List (String × Value) → List (String × Value)
  | [] => [(key, v)]
  | (k, w) :: entries => if k = key then (k, v) :: entries else (k, w) :: setEntry key v entries

mutual

def overwrite : Node → Value → Value
  | .null, _ => .null
  | .scalar text tag, _ => scalarValue text tag
  | .list items, .list before => .list (before ++ itemValues items)
  | .list items, _ => .list (itemValues items)
  | .map entries, .fields before => .fields (mergeEntries entries before)
  | .map entries, _ => .fields (mergeEntries entries [])
  | .broken _, v => v

def itemValues : List Node → List Value
  | [] => []
  | item :: items => overwrite item .null :: itemValues items

def mergeEntries : List (String × Node) → List (String × Value) → List (String × Value)
  | [], before => before
  | (key, node) :: entries, before =>
    mergeEntries entries (setEntry key (overwrite node (entryOf before key)) before)

end

mutual

def brokenReason? : Node → Option String
  | .broken reason => some reason
  | .list items => brokenItem? items
  | .map entries => brokenField? entries
  | _ => none

def brokenItem? : List Node → Option String
  | [] => none
  | item :: items => (brokenReason? item).or (brokenItem? items)

def brokenField? : List (String × Node) → Option String
  | [] => none
  | (_, node) :: entries => (brokenReason? node).or (brokenField? entries)

end

def document (node : Node) : Value :=
  match overwrite node .null with
  | .null => .fields []
  | v => v

end Node

end ContractNegotiation
