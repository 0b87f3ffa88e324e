import ContractNegotiation.Proofs.Connector
import ContractNegotiation.Proofs.Network.Round

namespace ContractNegotiation

namespace Action

variable {σ α β : Type} {P : σ → Prop} {x : Action σ α} {f : α → Action σ β}

def Sustains (P : σ → Prop) (x : Action σ α) : Prop := ∀ s, P s → Ends x s fun _ t => P t

theorem sustains_pure (a : α) : Sustains P (pure a) := fun _ h => h

theorem sustains_throw (fault : Fault) : Sustains P (throw fault : Action σ α) := fun _ h => h

theorem Sustains.bind (hx : Sustains P x) (hf : ∀ a, Sustains P (f a)) : Sustains P (x >>= f) :=
  fun s hs => (hx s hs).bind (fun a t ht => hf a t ht) fun _ _ ht => ht

theorem Sustains.map (hx : Sustains P x) (φ : α → β) : Sustains P (φ <$> x) :=
  fun s hs => ends_map.mpr (hx s hs)

theorem Sustains.attempt (hx : Sustains P x) : Sustains P (attempt x) := fun s hs =>
  (hx s hs).attempted.ends fun _ _ ht => ht

theorem Sustains.after (hx : Sustains P x) {s : σ} (hs : P s) : P (x.after s) := (hx s hs).after

end Action

open ContractNegotiation.Action

/-- `P` is kept by what the calls of a connector do: they lease nothing, and change the queues only
in ways that leave the counts of the waiting commands right. -/
structure Environment.Sustains {σ : Type} (env : Environment σ) (P : σ → Prop) : Prop where
  now : Action.Sustains P env.now
  freshId : Action.Sustains P env.freshId
  report (notice : Notice) : Action.Sustains P (env.report notice)
  find (id : String) : Action.Sustains P (env.find id)
  findByCorrelation (id : String) : Action.Sustains P (env.findByCorrelation id)
  findAgreement (id : String) : Action.Sustains P (env.findAgreement id)
  select (q : Query.Spec) : Action.Sustains P (env.select q)
  save (v : Negotiation) (holder : String) : Action.Sustains P (env.save v holder)
  workload (role : Role) : Action.Sustains P (env.workload role)
  update (role : Role) (f : Workload → Workload) :
    (∀ w, w.queue.Tallied → (f w).queue.Tallied) → Action.Sustains P (env.update role f)
  unbracketed : env.transactions = .none

variable {σ α : Type} {P : σ → Prop} {env : Environment σ}

namespace Manager

variable (h : env.Sustains P) (m : Manager)
include h

theorem transition_sustains (v : Negotiation) (event : Event) :
    Sustains P (env.transition v event) := by
  apply h.now.bind
  intro now
  split
  · exact h.freshId.bind fun _ => sustains_pure _
  · exact (sustains_pure _).bind fun _ => sustains_pure _

theorem wake_sustains : Sustains P (m.wake env) := h.update m.role _ fun _ hw => hw

theorem enqueue_sustains (c : Command) : Sustains P (m.enqueue env c) :=
  (h.report _).bind fun _ => h.update m.role _ fun _ hw => hw.push ⟨c, 0⟩

theorem persist_sustains (v next : Negotiation) (holder : String) :
    Sustains P (m.persist env v next holder) := by
  apply (h.save next holder).bind
  rintro (error | saved)
  · exact sustains_pure _
  · apply (h.update m.role (·.clearRetries saved.id) fun _ hw => hw).bind
    exact fun _ => (h.report _).bind fun _ => sustains_pure _

theorem insert_sustains (v : Negotiation) : Sustains P (m.insert env v) := by
  apply h.now.bind
  intro now
  apply (h.save _ "").bind
  rintro (error | saved)
  · exact sustains_pure _
  · exact (h.report _).bind fun _ => (wake_sustains h m).bind fun _ => sustains_pure _

theorem apply_sustains (v : Negotiation) (event : Event) : Sustains P (m.apply env v event) := by
  apply (transition_sustains h v event).bind
  rintro (⟨next, message⟩ | _ | _)
  · apply (persist_sustains h m v next "").bind
    rintro (error | saved)
    · exact sustains_pure _
    · exact (wake_sustains h m).bind fun _ => sustains_pure _
  · exact sustains_pure _
  · exact sustains_pure _

theorem findCorrelated_sustains (c : String) : Sustains P (m.findCorrelated env c) :=
  (h.findByCorrelation c).bind fun _ => sustains_pure _

theorem applyCorrelated_sustains (c : String) (event : Event) :
    Sustains P (m.applyCorrelated env c event) := by
  apply (findCorrelated_sustains h m c).bind
  rintro (_ | v)
  · exact sustains_pure _
  · exact apply_sustains h m v event

theorem identified_sustains (offer : Offer) : Sustains P (identified env offer) := by
  unfold identified
  split
  · exact h.freshId.bind fun _ => sustains_pure _
  · exact sustains_pure _

theorem initiate_sustains (request : ContractRequest) : Sustains P (m.initiate env request) := by
  unfold initiate
  split
  · exact sustains_pure _
  · split
    · exact sustains_pure _
    · apply h.freshId.bind
      exact fun _ => (identified_sustains h _).bind fun _ => insert_sustains h m _

theorem counterOffer_sustains (id : String) (offer : Offer) :
    Sustains P (m.counterOffer env id offer) := by
  apply ((h.find id).bind fun _ => sustains_pure _ : Sustains P (m.findOwned env id)).bind
  rintro (_ | v)
  · exact sustains_pure _
  · exact (identified_sustains h offer).bind fun _ => apply_sustains h m v _

theorem requested_sustains (token : ClaimToken) (message : RequestMessage) :
    Sustains P (m.requested env token message) := by
  unfold requested
  split
  · exact sustains_pure _
  · split
    · exact sustains_pure _
    · apply (findCorrelated_sustains h m _).bind
      rintro (_ | v)
      · dsimp only
        generalize (if token.clientId ≠ "" then token.clientId else message.connectorId) = c
        split
        · exact sustains_pure _
        · split
          · exact sustains_pure _
          · exact h.freshId.bind fun _ => insert_sustains h m _
      · dsimp only
        split
        · exact sustains_pure _
        · exact apply_sustains h m v _

theorem applyCommand_sustains (c : QueuedCommand) : Sustains P (m.applyCommand env c) := by
  apply (h.find c.command.target).bind
  rintro (_ | v)
  · exact h.report _
  · dsimp only
    split
    · exact h.report _
    · apply (transition_sustains h v c.command.event).bind
      rintro (⟨next, message⟩ | _ | _)
      · apply (persist_sustains h m v next "").bind
        rintro (error | saved)
        · dsimp only
          split
          · exact (h.report _).bind fun _ => h.update m.role _ fun _ hw => hw.push _
          · exact h.report _
        · exact wake_sustains h m
      · exact sustains_pure _
      · exact h.report _

theorem conclude_sustains (v next : Negotiation) : Sustains P (m.conclude env v next) := by
  apply (persist_sustains h m v next m.leaseHolder).bind
  rintro (error | saved)
  · exact h.report _
  · exact sustains_pure _

theorem concludeFailed_sustains (v : Negotiation) (cause : String) :
    Sustains P (m.concludeFailed env v cause) :=
  (transition_sustains h v _).bind fun _ => conclude_sustains h m v _

end Manager

namespace Service

variable (h : env.Sustains P) (c : Connector)
include h

theorem call_sustains {block : Action σ α} (route : Route) (id : String)
    (hblock : Sustains P block) : Sustains P (call env route id block) := by
  have hrun : Sustains P (env.transactions.run block) := by
    rw [h.unbracketed]
    exact hblock
  apply hrun.attempt.bind
  rintro (fault | a)
  · exact (h.report _).bind fun _ => sustains_throw fault
  · exact sustains_pure a

theorem answer_sustains (call : Call) : Sustains P (call.answer c env) := by
  cases call with
  | initiate request => exact call_sustains h _ _ (Manager.initiate_sustains h _ request)
  | counterOffer id offer => exact call_sustains h _ _ (Manager.counterOffer_sustains h _ id offer)
  | requested m token => exact call_sustains h _ _ (Manager.requested_sustains h _ token m)
  | offered m => exact call_sustains h _ _ (Manager.applyCorrelated_sustains h _ _ _)
  | agreed m =>
    apply call_sustains h
    unfold Manager.agreed
    split
    · exact sustains_pure _
    · exact Manager.applyCorrelated_sustains h _ _ _
  | verified m => exact call_sustains h _ _ (Manager.applyCorrelated_sustains h _ _ _)
  | finalized m => exact call_sustains h _ _ (Manager.applyCorrelated_sustains h _ _ _)
  | terminated m =>
    apply call_sustains h
    apply (h.findByCorrelation m.processId).bind
    rintro (_ | v)
    · exact sustains_pure _
    · dsimp only
      split
      · exact Manager.applyCorrelated_sustains h _ _ _
      · exact sustains_pure _

theorem receive_sustains (m : RemoteMessage) (token : ClaimToken) :
    Sustains P (receive c env m token) := by
  rw [receive_eq]
  split
  · exact sustains_pure _
  · exact (answer_sustains h c _).map some

theorem cancel_sustains (id : String) : Sustains P (cancel c env id) := by
  apply call_sustains h
  apply (h.find id).bind
  rintro (_ | v)
  · exact sustains_pure _
  · dsimp only
    split
    · exact sustains_pure _
    · exact (Manager.enqueue_sustains h _ _).bind fun _ => sustains_pure _

theorem decline_sustains (id reason : String) : Sustains P (decline c env id reason) := by
  apply call_sustains h
  apply (h.find id).bind
  rintro (_ | v)
  · exact sustains_pure _
  · exact (Manager.enqueue_sustains h _ _).bind fun _ => sustains_pure _

theorem query_sustains (q : Query.Spec) : Sustains P (query env q) := by
  apply call_sustains h
  split
  · exact sustains_pure _
  · exact (h.select q).bind fun _ => sustains_pure _

end Service

theorem Connector.Serves.sustains {c : Connector} {s t : σ} (hx : c.Serves env s t)
    (h : env.Sustains P) (hs : P s) : P t := by
  cases hx with
  | get id => exact (Service.call_sustains h _ _ (h.find id)).after hs
  | query q => exact (Service.query_sustains h q).after hs
  | state id =>
    exact (Service.call_sustains h _ _ ((h.find id).bind fun _ => sustains_pure _)).after hs
  | agreementOf id =>
    exact (Service.call_sustains h _ _ ((h.find id).bind fun _ => sustains_pure _)).after hs
  | findAgreement id => exact (Service.call_sustains h _ _ (h.findAgreement id)).after hs
  | initiate request => exact (Service.answer_sustains h c (.initiate request)).after hs
  | counterOffer id offer => exact (Service.answer_sustains h c (.counterOffer id offer)).after hs
  | cancel id => exact (Service.cancel_sustains h c id).after hs
  | decline id reason => exact (Service.decline_sustains h c id reason).after hs
  | receive m token => exact (Service.receive_sustains h c m token).after hs
  | finalized m => exact (Service.answer_sustains h c (.finalized m)).after hs
  | enqueue role command => exact (Manager.enqueue_sustains h _ command).after hs

end ContractNegotiation
