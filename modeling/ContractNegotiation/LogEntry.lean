namespace ContractNegotiation

inductive Level where
  | debug
  | info
  | warn
  | error
  deriving DecidableEq, Inhabited, Repr

namespace Level

def all : List Level := [debug, info, warn, error]

def name : Level → String
  | debug => "debug"
  | info => "info"
  | warn => "warn"
  | error => "error"

def rank : Level → Nat
  | debug => 0
  | info => 1
  | warn => 2
  | error => 3

end Level

structure LogField where
  key : String
  value : String
  deriving DecidableEq, Inhabited, Repr

namespace LogField

def text (key value : String) : LogField := ⟨key, value⟩

def int (key : String) (value : Int) : LogField := ⟨key, toString value⟩

def flag (key : String) (value : Bool) : LogField := ⟨key, if value then "true" else "false"⟩

/-- Values with a space stand in quotes; nothing is escaped. -/
def chars (f : LogField) : List Char :=
  f.key.toList ++ '=' ::
    if ' ' ∈ f.value.toList then '"' :: f.value.toList ++ ['"'] else f.value.toList

def charsOfAll : List LogField → List Char
  | [] => []
  | f :: fields => ' ' :: f.chars ++ charsOfAll fields

end LogField

structure LogEntry where
  level : Level
  message : String
  fields : List LogField := []
  deriving DecidableEq, Inhabited, Repr

def LogEntry.line (e : LogEntry) : String :=
  String.ofList (e.message.toList ++ LogField.charsOfAll e.fields)

end ContractNegotiation
