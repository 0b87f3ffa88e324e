import ContractNegotiation.Loopback
import ContractNegotiation.Manager.Round

namespace ContractNegotiation

structure Site where
  store : Store := {}
  consumer : Workload := {}
  provider : Workload := {}
  started : Bool := false
  deriving Inhabited

namespace Site

def workload (s : Site) : Role → Workload
  | .consumer => s.consumer
  | .provider => s.provider

def setWorkload (s : Site) (role : Role) (w : Workload) : Site :=
  match role with
  | .consumer => { s with consumer := w }
  | .provider => { s with provider := w }

end Site

structure Network (n : Nat) where
  sites : Vector Site n
  addresses : Table (Fin n) := {}
  now : Instant := default
  issued : Nat := 0
  notices : List Notice := []

structure Roster (n : Nat) where
  connectors : Vector Connector n
  ids : Nat → String

def Roster.connector {n : Nat} (roster : Roster n) (i : Fin n) : Connector :=
  roster.connectors.get i

namespace Network

variable {n : Nat}

def site (net : Network n) (i : Fin n) : Site := net.sites.get i

def setSite (net : Network n) (i : Fin n) (s : Site) : Network n :=
  { net with sites := net.sites.set i s i.isLt }

def report (notice : Notice) : Action (Network n) Unit :=
  modify fun net => { net with notices := net.notices ++ [notice] }

def freshId (ids : Nat → String) : Action (Network n) String := fun net =>
  .ok (ids net.issued) { net with issued := net.issued + 1 }

def ask {α : Type} (i : Fin n) (question : Store → Instant → α) : Action (Network n) α := do
  let net ← get
  pure (question (net.site i).store net.now)

def setStore (net : Network n) (i : Fin n) (s : Store) : Network n :=
  net.setSite i { net.site i with store := s }

def save (i : Fin n) (record : Negotiation) (holder : String) :
    Action (Network n) (Except StoreError Negotiation) := do
  let net ← get
  match (net.site i).store.save record holder net.now with
  | .error error => pure (.error error)
  | .ok (saved, store) => do
    set (net.setStore i store)
    pure (.ok saved)

def lease (i : Fin n) (s : State) (role : Role) (batch : Nat) (holder : String) :
    Action (Network n) (List Negotiation) := do
  let net ← get
  let (leased, store) := (net.site i).store.leaseNext s.code (some role) batch holder net.now
  set (net.setStore i store)
  pure leased

def breakLease (i : Fin n) (id holder : String) : Action (Network n) (Except StoreError Unit) := do
  let net ← get
  match (net.site i).store.breakLease id holder net.now with
  | .error error => pure (.error error)
  | .ok store => do
    set (net.setStore i store)
    pure (.ok ())

def environment (ids : Nat → String) (i : Fin n) : Environment (Network n) where
  now := do
    let net ← get
    pure net.now
  freshId := freshId ids
  report := report
  find id := ask i fun store _ => store.find? id
  findByCorrelation id := ask i fun store _ => store.findByCorrelation? id
  findAgreement id := ask i fun store _ => store.findAgreement? id
  select q := ask i fun store _ => store.select q
  save := save i
  lease := lease i
  breakLease := breakLease i
  workload role := do
    let net ← get
    pure ((net.site i).workload role)
  setWorkload role w := modify fun net => net.setSite i ((net.site i).setWorkload role w)
  transactions := .none

variable (roster : Roster n)

def send (i : Fin n) : Transport (Network n) := fun m => do
  let net ← get
  match net.addresses.get? m.destination with
  | none => pure (Loopback.unreachable m.destination)
  | some j =>
    Loopback.deliver (roster.connector j) (environment roster.ids j)
      (roster.connector i).participantId m

def register (address : String) (i : Fin n) : Action (Network n) Unit :=
  modify fun net => { net with addresses := net.addresses.insert address i }

def unregister (address : String) : Action (Network n) Unit :=
  modify fun net => { net with addresses := net.addresses.erase address }

def runOnce (i : Fin n) (role : Role) : Action (Network n) Nat :=
  ((roster.connector i).manager role).runOnce (environment roster.ids i) (send roster i)

def turn (i : Fin n) (now : Instant) : Action (Network n) Unit := do
  modify fun net => { net with now }
  let c := roster.connector i
  let _ ← c.consumer.runGuarded (environment roster.ids i) (send roster i)
  let _ ← c.provider.runGuarded (environment roster.ids i) (send roster i)

def setStarted (i : Fin n) (started : Bool) : Action (Network n) Unit :=
  modify fun net => net.setSite i { net.site i with started }

def start (i : Fin n) : Action (Network n) Unit := do
  let net ← get
  if (net.site i).started then pure ()
  else do
    let c := roster.connector i
    register c.address i
    c.consumer.start (environment roster.ids i)
    c.provider.start (environment roster.ids i)
    setStarted i true
    report (.connectorStarted c.participantId c.address)

def stop (i : Fin n) : Action (Network n) Unit := do
  let net ← get
  if (net.site i).started then do
    let c := roster.connector i
    c.consumer.stop (environment roster.ids i)
    c.provider.stop (environment roster.ids i)
    unregister c.address
    setStarted i false
    report (.connectorStopped c.participantId)
  else pure ()

end Network

end ContractNegotiation
