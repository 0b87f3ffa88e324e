import ContractNegotiation.Dispatch
import ContractNegotiation.Notice
import ContractNegotiation.Retry

namespace ContractNegotiation

structure Workload where
  queue : CommandQueue := {}
  retries : RetryLog := {}
  running : Bool := false
  deriving Inhabited

namespace Workload

def mapQueue (w : Workload) (f : CommandQueue → CommandQueue) : Workload :=
  { w with queue := f w.queue }

def clearRetries (w : Workload) (id : String) : Workload := { w with retries := w.retries.clear id }

end Workload

structure Environment (σ : Type) where
  now : Action σ Instant
  freshId : Action σ String
  report : Notice → Action σ Unit
  find : String → Action σ (Option Negotiation)
  findByCorrelation : String → Action σ (Option Negotiation)
  findAgreement : String → Action σ (Option Agreement)
  select : Query.Spec → Action σ (List Negotiation)
  save : Negotiation → String → Action σ (Except StoreError Negotiation)
  lease : State → Role → Nat → String → Action σ (List Negotiation)
  breakLease : String → String → Action σ (Except StoreError Unit)
  workload : Role → Action σ Workload
  setWorkload : Role → Workload → Action σ Unit
  transactions : Transactions σ

namespace Environment

variable {σ : Type} (env : Environment σ)

def update (role : Role) (f : Workload → Workload) : Action σ Unit := do
  let w ← env.workload role
  env.setWorkload role (f w)

def transition (n : Negotiation) (event : Event) : Action σ Outcome := do
  let now ← env.now
  let agreementId ← if n.drawsId event then env.freshId else pure ""
  pure (n.transition event now agreementId)

def within {τ : Type} (part : τ → σ) (put : τ → σ → τ) : Environment τ where
  now := .within part put env.now
  freshId := .within part put env.freshId
  report notice := .within part put (env.report notice)
  find id := .within part put (env.find id)
  findByCorrelation id := .within part put (env.findByCorrelation id)
  findAgreement id := .within part put (env.findAgreement id)
  select q := .within part put (env.select q)
  save n holder := .within part put (env.save n holder)
  lease s role batch holder := .within part put (env.lease s role batch holder)
  breakLease id holder := .within part put (env.breakLease id holder)
  workload role := .within part put (env.workload role)
  setWorkload role w := .within part put (env.setWorkload role w)
  transactions :=
    match env.transactions with
    | .none => .none
    | .bracketed start commit rollback =>
      .bracketed (.within part put start) (.within part put commit) (.within part put rollback)

end Environment

end ContractNegotiation
