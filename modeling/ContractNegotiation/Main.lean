import ContractNegotiation.Host
import ContractNegotiation.Identifier
import ContractNegotiation.Settings.Logging
import ContractNegotiation.Settings.Outline
import Std.Async.Signal
import Std.Time.DateTime.Timestamp

namespace ContractNegotiation.CommandLine

open Std.Async

def threshold (level : String) : Nat :=
  match level with
  | "trace" | "debug" => 0
  | "info" => 1
  | "warn" | "warning" => 2
  | "err" | "error" => 3
  | _ => 4

def printNotice (threshold : Nat) (notice : Notice) : IO Unit := do
  let entry := notice.entry
  if threshold ≤ entry.level.rank then
    IO.println ("[" ++ entry.level.name ++ "] " ++ entry.line)

def perform (threshold : Nat) (x : Action (Network 1) Unit) (net : Network 1) : IO (Network 1) := do
  let (fault, net) := match x.run net with
    | .ok _ net => (none, net)
    | .error fault net => (some fault, net)
  net.notices.forM (printNotice threshold)
  match fault with
  | some fault => throw (IO.userError fault.report)
  | none => pure { net with notices := [] }

def clock : IO Instant := do
  let now ← Std.Time.Timestamp.now
  pure ⟨now.toNanosecondsSinceUnixEpoch.val⟩

partial def interrupted (signals : List (AsyncTask Int)) (ms : Nat) : IO Bool := do
  if ← signals.anyM fun signal => IO.hasFinished signal then pure true
  else if ms = 0 then pure false
  else do
    let nap := min ms 200
    IO.sleep (UInt32.ofNat nap)
    interrupted signals (ms - nap)

partial def work (threshold : Nat) (h : Host) (signals : List (AsyncTask Int)) (net : Network 1) :
    IO (Network 1) := do
  let net ← perform threshold (Network.turn h.roster 0 (← clock)) net
  if ← interrupted signals h.connector.consumer.options.pollInterval.toNat then pure net
  else work threshold h signals net

def operate (threshold : Nat) (h : Host) : IO Unit := do
  let signals ← [Signal.sigint, Signal.sigterm].mapM fun signal => do
    let waiter ← Signal.Waiter.mk signal false
    waiter.wait
  let net ← perform threshold h.start { h.network with now := ← clock }
  let net ← work threshold h signals net
  let _ ← perform threshold h.stop net

def load (path : String) : IO (Except SettingsError Settings) := do
  match ← (IO.FS.readFile path).toBaseIO with
  | .ok text => pure (Settings.ofDocument (Outline.ofText text) .unreadableFile)
  | .error _ => pure (.error (.unreadableFile ("bad file: " ++ path)))

def conclude (session : Session) : IO UInt32 := do
  session.notices.forM (printNotice 0)
  (← IO.getStderr).putStr session.complaint
  pure session.exit

def logVariables : IO (String → Option String) := do
  let names := ["NEGOTIATION_LOG_PATTERN", "NEGOTIATION_LOG_LEVEL"]
  let found ← names.mapM fun name => do
    pure (name, ← IO.getEnv name)
  pure fun name => (found.lookup name).join

def host (s : Settings) : IO UInt32 := do
  let seed ← IO.rand 0 0xFFFFFFFFFFFFFFF
  let ids (k : Nat) : String := (Identifier.random (mkStdGen (seed + 1000003 * k))).1.text
  match Host.ofSettings ids s with
  | .error e => conclude (.failed e)
  | .ok h => do
    let surroundings ← logVariables
    try
      operate (threshold (s.loggingChoice surroundings).level) h
      pure 0
    catch e =>
      printNotice 0 (.fatal (toString e))
      pure 2

def run (args : List String) : IO UInt32 := do
  match Session.settingsPath? args with
  | none => conclude .misused
  | some path =>
    match ← load path with
    | .error e => conclude (.failed e)
    | .ok s => host s

end ContractNegotiation.CommandLine

def main (args : List String) : IO UInt32 := ContractNegotiation.CommandLine.run args
