import ContractNegotiation.Simulation.Step

namespace ContractNegotiation.Simulation

structure Delivery where
  message : RemoteMessage
  during : Option (List Reply) := none
  outcome : Option (Except Fault DispatchResult) := none

inductive Mark where
  | begun
  | committed
  | rolledBack
  deriving DecidableEq, Inhabited, Repr

def Mark.name : Mark → String
  | begun => "begin"
  | committed => "commit"
  | rolledBack => "rollback"

structure Rig where
  script : List ScriptEntry := []
  outages : List Outage := []
  commitFault : Option Fault := none
  sent : List Delivery := []
  marks : List Mark := []
  deriving Inhabited

inductive Wiring where
  | scripted
  | loopback
  | direct
  deriving DecidableEq, Inhabited, Repr

structure Part where
  name : String := "a"
  wiring : Wiring := .scripted
  bracketed : Bool := true
  deriving Inhabited

structure Setup (n : Nat) where
  roster : Roster n
  parts : Vector Part n

def Setup.part {n : Nat} (setup : Setup n) (i : Fin n) : Part := setup.parts.get i

structure World (n : Nat) where
  network : Network n
  rigs : Vector Rig n

namespace World

variable {n : Nat} {α : Type}

def rig (w : World n) (i : Fin n) : Rig := w.rigs.get i

def setRig (w : World n) (i : Fin n) (r : Rig) : World n := { w with rigs := w.rigs.set i r i.isLt }

def updateRig (i : Fin n) (f : Rig → Rig) : Action (World n) Unit :=
  modify fun w => w.setRig i (f (w.rig i))

def ofNetwork (x : Action (Network n) α) : Action (World n) α :=
  .within World.network (fun w network => { w with network }) x

def mark (i : Fin n) (m : Mark) : Action (World n) Unit :=
  updateRig i fun r => { r with marks := r.marks ++ [m] }

def commit (i : Fin n) : Action (World n) Unit := do
  let w ← get
  match (w.rig i).commitFault with
  | some fault => do
    updateRig i fun r => { r with commitFault := none }
    throw fault
  | none => mark i .committed

def takeOutage (call : StoreCall) : List Outage → Option Outage × List Outage
  | [] => (none, [])
  | o :: outages =>
    if o.call = call ∧ o.skip = 0 ∧ 0 < o.times then
      (some o, { o with times := o.times - 1 } :: outages)
    else
      let counted := if o.call = call then { o with skip := o.skip - 1 } else o
      let (found, outages) := takeOutage call outages
      (found, counted :: outages)

def unlessOut (i : Fin n) (call : StoreCall) (failed : Outage → α) (x : Action (World n) α) :
    Action (World n) α := do
  let w ← get
  let (outage, outages) := takeOutage call (w.rig i).outages
  set (w.setRig i { (w.rig i) with outages })
  match outage with
  | none => x
  | some o =>
    match o.kind with
    | .raise fault => throw fault
    | _ => pure (failed o)

variable (setup : Setup n)

def environment (i : Fin n) : Environment (World n) :=
  let env := (Network.environment setup.roster.ids i).within World.network
    fun w network => { w with network }
  if (setup.part i).wiring = .direct then env
  else { env with
    find := fun id => unlessOut i .find (fun _ => none) (env.find id)
    findByCorrelation := fun id =>
      unlessOut i .findByCorrelation (fun _ => none) (env.findByCorrelation id)
    findAgreement := fun id => unlessOut i .findAgreement (fun _ => none) (env.findAgreement id)
    select := fun q => unlessOut i .query (fun _ => []) (env.select q)
    save := fun record holder =>
      unlessOut i .save (·.answer record) (env.save record holder)
    lease := fun s role batch holder =>
      unlessOut i .lease Outage.records (env.lease s role batch holder)
    breakLease := fun id holder =>
      unlessOut i .breakLease (·.answer ()) (env.breakLease id holder)
    transactions :=
      if (setup.part i).bracketed then .bracketed (mark i .begun) (commit i) (mark i .rolledBack)
      else .none }

def loopback (i : Fin n) : Transport (World n) := fun m => do
  let w ← get
  match w.network.addresses.get? m.destination with
  | none => pure (Loopback.unreachable m.destination)
  | some j =>
    Loopback.deliver (setup.roster.connector j) (environment setup j)
      (setup.roster.connector i).participantId m

def unscripted (i : Fin n) : Transport (World n) := fun m =>
  if (setup.part i).wiring = .scripted then pure (.ok ("peer-" ++ m.processId))
  else loopback setup i m

def takeEntry (processId : String) : List ScriptEntry → Option ScriptEntry × List ScriptEntry
  | [] => (none, [])
  | entry :: entries =>
    if entry.isFor processId then (some entry, entries)
    else
      let (found, entries) := takeEntry processId entries
      (found, entry :: entries)

def answered (i : Fin n) (m : RemoteMessage) (answer : Option (Except Fault DispatchResult)) :
    Action (World n) (Except Fault DispatchResult) :=
  match answer with
  | some answer => pure answer
  | none => .attempt (unscripted setup i m)

def passTime (ms : Int) : Action (World n) Unit :=
  modify fun w => { w with network := { w.network with now := w.network.now.later ms } }

def openDelivery (i : Fin n) (m : RemoteMessage) : Action (World n) Nat := do
  let w ← get
  updateRig i fun r => { r with sent := r.sent ++ [{ message := m }] }
  pure (w.rig i).sent.length

def closeDelivery (i : Fin n) (place : Nat) (d : Delivery) : Action (World n) Unit :=
  updateRig i fun r => { r with sent := r.sent.set place d }

def send (perform : List Step → Action (World n) (List Reply)) (i : Fin n) : Transport (World n) :=
  fun m => do
    if (setup.part i).wiring = .direct then loopback setup i m
    else do
      let place ← openDelivery i m
      let w ← get
      let (entry, script) := takeEntry m.processId (w.rig i).script
      updateRig i fun r => { r with script }
      let during ← match entry with
        | none => pure none
        | some entry => do
          passTime entry.advance
          match entry.during with
          | none => pure none
          | some steps => do
            let replies ← perform steps
            pure (some replies)
      let outcome ← answered setup i m (entry.bind ScriptEntry.answer)
      closeDelivery i place { message := m, during, outcome := some outcome }
      match outcome with
      | .ok result => pure result
      | .error fault => throw fault

end World

end ContractNegotiation.Simulation
