import ContractNegotiation.Instant
import ContractNegotiation.Query.Criterion
import ContractNegotiation.Table

namespace ContractNegotiation

inductive StoreCode where
  | notFound
  | alreadyExists
  | conflict
  | leaseConflict
  | invalidArgument
  | internalError
  deriving DecidableEq, Inhabited, Repr

namespace StoreCode

def all : List StoreCode :=
  [notFound, alreadyExists, conflict, leaseConflict, invalidArgument, internalError]

def name : StoreCode → String
  | notFound => "NotFound"
  | alreadyExists => "AlreadyExists"
  | conflict => "Conflict"
  | leaseConflict => "LeaseConflict"
  | invalidArgument => "InvalidArgument"
  | internalError => "InternalError"

end StoreCode

inductive StoreError where
  | emptyId
  | alreadyStored (id : String)
  | missing (id : String)
  | leased (id holder : String)
  | stale (given stored : UInt64)
  | leaseHeld (id holder : String)
  | medium (code : StoreCode) (text : String)
  deriving DecidableEq, Inhabited

namespace StoreError

def code : StoreError → StoreCode
  | emptyId => .invalidArgument
  | alreadyStored _ => .alreadyExists
  | missing _ => .notFound
  | leased .. => .leaseConflict
  | stale .. => .conflict
  | leaseHeld .. => .leaseConflict
  | medium code _ => code

def message : StoreError → String
  | emptyId => "negotiation id is empty"
  | alreadyStored id => "negotiation " ++ id ++ " already exists"
  | missing id => "negotiation " ++ id ++ " not found"
  | leased id holder => "negotiation " ++ id ++ " is leased by " ++ holder
  | stale given stored =>
    "stale state_count " ++ toString given.toNat ++ ", stored " ++ toString stored.toNat
  | leaseHeld id holder => "lease on " ++ id ++ " held by " ++ holder
  | medium _ text => text

def isLostRace (e : StoreError) : Bool := e.code = .conflict || e.code = .leaseConflict

end StoreError

structure Lease where
  holder : String
  expiresAt : Instant
  deriving DecidableEq, Inhabited, Repr

structure Store where
  leaseDuration : Int := 60000
  records : List Negotiation := []
  leases : Table Lease := {}
  deriving Inhabited

namespace Store

def find? (s : Store) (id : String) : Option Negotiation := s.records.find? (·.id = id)

def findByCorrelation? (s : Store) (correlationId : String) : Option Negotiation :=
  if correlationId = "" then none else s.records.find? (·.correlationId = correlationId)

def findAgreement? (s : Store) (agreementId : String) : Option Agreement :=
  (s.records.filterMap Negotiation.agreement).find? (·.id = agreementId)

def select (s : Store) (q : Query.Spec) : List Negotiation := q.answer s.records

def liveLease? (s : Store) (id : String) (now : Instant) : Option Lease :=
  (s.leases.get? id).filter fun lease => now < lease.expiresAt

def replace (s : Store) (n : Negotiation) : Store :=
  { s with records := s.records.map fun m => if m.id = n.id then n else m }

/-- Inserts a record without versions, and otherwise writes the next version of a stored one. The
answer is the record as it is now stored. -/
def save (s : Store) (n : Negotiation) (holder : String) (now : Instant) :
    Except StoreError (Negotiation × Store) :=
  if n.id = "" then .error .emptyId
  else if n.stateCount = 0 then
    match s.find? n.id with
    | some _ => .error (.alreadyStored n.id)
    | none =>
      let first := { n with stateCount := 1 }
      .ok (first, { s with records := first :: s.records })
  else
    match s.find? n.id with
    | none => .error (.missing n.id)
    | some stored =>
      match (s.liveLease? n.id now).filter (·.holder ≠ holder) with
      | some lease => .error (.leased n.id lease.holder)
      | none =>
        if stored.stateCount ≠ n.stateCount then .error (.stale n.stateCount stored.stateCount)
        else
          let next := { n with stateCount := n.stateCount + 1 }
          .ok (next, s.replace next)

def candidates (s : Store) (stateCode : Int) (role : Option Role) (now : Instant) :
    List Negotiation :=
  s.records.filter fun n =>
    n.stateCode = stateCode && n.role = role && (s.liveLease? n.id now).isNone

/-- Leases to a holder at most `batch` candidates, those longest in the state first. -/
def leaseNext (s : Store) (stateCode : Int) (role : Option Role) (batch : Nat) (holder : String)
    (now : Instant) : List Negotiation × Store :=
  let chosen := ((s.candidates stateCode role now).mergeSort fun a b =>
    a.stateTimestamp ≤ b.stateTimestamp).take batch
  let lease : Lease := ⟨holder, now.later s.leaseDuration⟩
  (chosen, { s with leases := chosen.foldl (fun leases n => leases.insert n.id lease) s.leases })

def breakLease (s : Store) (id holder : String) (now : Instant) : Except StoreError Store :=
  match s.leases.get? id with
  | none => .ok s
  | some lease =>
    if lease.holder ≠ holder ∧ now < lease.expiresAt then .error (.leaseHeld id lease.holder)
    else .ok { s with leases := s.leases.erase id }

theorem id_of_find? {s : Store} {id : String} {n : Negotiation} (h : s.find? id = some n) :
    n.id = id := by
  simpa using List.find?_some h

theorem find?_replace (s : Store) (n : Negotiation) (id : String) :
    (s.replace n).find? id = if id = n.id then (s.find? id).map fun _ => n else s.find? id := by
  simp only [find?, replace]
  induction s.records with
  | nil => simp
  | cons m records ih =>
    simp only [List.map_cons, List.find?_cons]
    by_cases hm : m.id = n.id
    · by_cases hi : id = n.id
      · simp [hm, hi]
      · have hn : ¬ n.id = id := fun h => hi h.symm
        simpa [hm, hi, hn] using ih
    · by_cases hi : m.id = id
      · have hn : ¬ id = n.id := fun h => hm (hi.trans h)
        simp [hi, hn]
      · simpa [hm, hi] using ih

end Store

end ContractNegotiation
