import ContractNegotiation.Settings

namespace ContractNegotiation

structure LoggingChoice where
  pattern : String
  level : String
  deriving DecidableEq, Inhabited, Repr

def resolve (given : Option String) (configured fallback : String) : String :=
  match given with
  | some value => value
  | none => if configured = "" then fallback else configured

def defaultPattern : String := "%Y-%m-%dT%H:%M:%S.%e%z [%^%l%$] [%t] %v"

def Settings.loggingChoice (s : Settings) (surroundings : String → Option String) :
    LoggingChoice where
  pattern :=
    resolve (surroundings "NEGOTIATION_LOG_PATTERN") s.loggingOrDefault.pattern defaultPattern
  level := resolve (surroundings "NEGOTIATION_LOG_LEVEL") s.loggingOrDefault.level "info"

end ContractNegotiation
