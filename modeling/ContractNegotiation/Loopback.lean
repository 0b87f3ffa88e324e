import ContractNegotiation.Service

namespace ContractNegotiation.Loopback

variable {σ : Type}

def mayClearUp : Reason → Bool
  | .notFound | .conflict | .transient => true
  | .badRequest | .fatal => false

def answer (kind : String) : Option (Except Refusal Negotiation) → DispatchResult
  | none => .fatal ("receiver does not handle " ++ kind ++ " messages of this type")
  | some (.ok n) => .ok n.id
  | some (.error refusal) =>
    let text := refusal.reason.name ++ ": " ++ refusal.message
    if mayClearUp refusal.reason then .transient text else .fatal text

def unreachable (address : String) : DispatchResult :=
  .transient ("no connector registered at '" ++ address ++ "'")

def senderToken (participantId : String) : ClaimToken := ⟨[("client_id", participantId)]⟩

def deliver (receiver : Connector) (env : Environment σ) (participantId : String) : Transport σ :=
  fun m => do
    match ← Action.attempt (Service.receive receiver env m (senderToken participantId)) with
    | .ok result => pure (answer m.kind result)
    | .error fault => do
      env.report (.deliveryThrew m.destination m.kind fault)
      pure (.transient fault.report)

end ContractNegotiation.Loopback
