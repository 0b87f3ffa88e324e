import ContractNegotiation.Host
import ContractNegotiation.Proofs.Manager

namespace ContractNegotiation

open ContractNegotiation.Action

inductive RemoteMessage.Means : RemoteMessage → Role → Event → Prop where
  | request (m : RequestMessage) (offer : Offer) : m.offer = some offer →
      Means (.request m) .provider (.requestReceived offer)
  | offer (m : OfferMessage) : Means (.offer m) .consumer (.offerReceived (m.offer.getD {}))
  | agreement (m : AgreementMessage) : (m.agreement.getD {}).id ≠ "" →
      Means (.agreement m) .consumer
        (.agreementReceived (m.agreement.getD {}) (m.policy.getD {}))
  | verification (m : VerificationMessage) :
      Means (.verification m) .provider .verificationReceived
  | event (m : EventMessage) : Means (.event m) .consumer .finalizationReceived
  | termination (m : TerminationMessage) (role : Role) :
      Means (.termination m) role (.terminationReceived m.reason)

def Store.Receives (s : Store) (m : RemoteMessage) (v : Negotiation) (event : Event) : Prop :=
  s.findByCorrelation? m.processId = some v ∧ ∃ role, v.role = some role ∧ m.Means role event

def Store.Welcomes (s : Store) (m : RemoteMessage) (w : Negotiation) : Prop :=
  ∃ request offer, m = .request request ∧ request.offer = some offer ∧ request.processId ≠ "" ∧
    (∀ v, s.findByCorrelation? request.processId = some v → v.role ≠ some .provider) ∧
    w.Starts .provider .consumerRequested request.processId request.callbackAddress offer

def Store.Knows (s : Store) (m : RemoteMessage) (v : Negotiation) : Prop :=
  s.findByCorrelation? m.processId = some v ∧
    ((∃ request offer, m = .request request ∧ request.offer = some offer ∧
        v.role = some .provider ∧ Manager.Repeated v offer) ∨
      v.state = .terminated ∧ ∃ termination, m = .termination termination)

structure Connector.Typed (c : Connector) : Prop where
  consumer : c.consumer.role = .consumer
  provider : c.provider.role = .provider

theorem Connector.create_typed (participantId address : String) (options : Options)
    (id id' : String) : (create participantId address options id id').Typed := ⟨rfl, rfl⟩

theorem Connector.Typed.manager {c : Connector} (h : c.Typed) (role : Role) :
    (c.manager role).role = role := by
  cases role with
  | consumer => exact h.consumer
  | provider => exact h.provider

namespace Service

variable {σ ρ α : Type} {f : Focus σ ρ} {ids : Nat → String} {env : Environment σ} {s t : σ}

section Calls

variable (h : env.Lawful ids f)
include h

theorem call_ends {block : Action σ α} {Q : Except Fault α → σ → Prop} (route : Route) (id : String)
    (hb : Ends block s Q)
    (hQ : ∀ fault t u, Q (.error fault) t → f.Keeps t u → Q (.error fault) u) :
    Ends (call env route id block) s Q := by
  unfold call
  rw [h.unbracketed]
  refine hb.attempt ?_
  rintro (fault | a) t ht
  · exact (h.report _).bind_ends fun _ u hu => hQ fault t u ht hu
  · exact ht

theorem call_harmless {block : Action σ α} (route : Route) (id : String) (hb : f.Harmless block) :
    f.Harmless (call env route id block) :=
  fun s => call_ends h route id (hb s) fun _ _ _ ht hu => ht.trans hu

theorem find_harmless (id : String) : f.Harmless (env.find id) :=
  fun s => (h.find id s).mono fun _ _ ht => ht.1

theorem get_harmless (id : String) : f.Harmless (get env id) :=
  call_harmless h _ _ (find_harmless h id)

theorem query_harmless (q : Query.Spec) : f.Harmless (query env q) := by
  refine call_harmless h _ _ ?_
  cases flaw? q with
  | some flaw => exact fun s => .refl s
  | none => exact fun s => (h.select q s).andPure

theorem state_harmless (id : String) : f.Harmless (state env id) :=
  call_harmless h _ _ fun s => (find_harmless h id s).andPure

theorem agreementOf_harmless (id : String) : f.Harmless (agreementOf env id) :=
  call_harmless h _ _ fun s => (find_harmless h id s).andPure

theorem findAgreement_harmless (id : String) : f.Harmless (findAgreement env id) :=
  call_harmless h _ _ (h.findAgreement id)

variable (c : Connector)

theorem cancel_harmless (id : String) : f.Harmless (cancel c env id) := by
  refine call_harmless h _ _ fun s => ?_
  refine (find_harmless h id s).bind ?_ fun _ _ ht => ht
  intro found t ht
  cases found with
  | none => exact ht
  | some n =>
    dsimp only
    split
    · exact ht
    · refine (c.consumer.enqueue_quiet h _).bind_ends fun _ u hu => ?_
      exact ht.trans hu

theorem decline_harmless (id reason : String) : f.Harmless (decline c env id reason) := by
  refine call_harmless h _ _ fun s => ?_
  refine (find_harmless h id s).bind ?_ fun _ _ ht => ht
  intro found t ht
  cases found with
  | none => exact ht
  | some n =>
    refine ((c.manager (n.role.getD .consumer)).enqueue_quiet h _).bind_ends fun _ u hu => ?_
    exact ht.trans hu

variable {moves : Negotiation → Event → Prop} {opens keeps : Negotiation → Prop}

theorem call_effect {block : Action σ (Except Refusal Negotiation)} (route : Route) (id : String)
    (hb : Ends block s (f.Effect ids s moves opens keeps)) :
    Ends (call env route id block) s (f.Effect ids s moves opens keeps) :=
  call_ends h route id hb fun _ _ _ ht hu => ht.before hu

variable (hc : c.Typed)
include hc

theorem initiate_ends (request : ContractRequest) :
    Ends (initiate c env request) s (f.Effect ids s (fun _ _ => False)
      (fun w => ∃ address offer, w.Starts .consumer .requesting "" address offer)
      fun _ => False) :=
  call_effect h _ _ (hc.consumer ▸ c.consumer.initiate_ends h request)

theorem counterOffer_ends (id : String) (offer : Offer) :
    Ends (counterOffer c env id offer) s (f.Effect ids s
      (fun v event => (f.store s).find? id = some v ∧ v.role = some .provider ∧
        ∃ offer, event = .counterOffer offer)
      (fun _ => False) fun _ => False) :=
  call_effect h _ _ (hc.provider ▸ c.provider.counterOffer_ends h id offer)

abbrev Reception (f : Focus σ ρ) (ids : Nat → String) (s : σ) (m : RemoteMessage) :
    Except Fault (Except Refusal Negotiation) → σ → Prop :=
  f.Effect ids s ((f.store s).Receives m) ((f.store s).Welcomes m) ((f.store s).Knows m)

omit hc in
theorem correlated_ends (hs : (f.store s).Tidy) {m : RemoteMessage} {event : Event}
    {manager : Manager} {role : Role} (hr : manager.role = role) (hm : m.Means role event) :
    Ends (manager.applyCorrelated env m.processId event) s (Reception f ids s m) := by
  refine (manager.applyCorrelated_ends h hs m.processId event).mono fun r t ht => ?_
  refine ht.mono ?_ (fun _ h => h.elim) ?_
  · rintro v event ⟨⟨hf, hrole⟩, rfl⟩
    exact ⟨hf, role, hr ▸ hrole, hm⟩
  · rintro v ⟨⟨hf, -⟩, hv, reason, rfl⟩
    cases hm with
    | termination m => exact ⟨hf, .inr ⟨hv, m, rfl⟩⟩

theorem requested_ends (hs : (f.store s).Tidy) (m : RequestMessage) (token : ClaimToken) :
    Ends (requested c env m token) s (Reception f ids s (.request m)) := by
  refine call_effect h _ _ ((c.provider.requested_ends h hs token m).mono fun r t ht => ?_)
  refine ht.mono ?_ ?_ ?_
  · rintro v event ⟨⟨hf, hrole⟩, offer, ho, rfl⟩
    exact ⟨hf, .provider, hc.provider ▸ hrole, .request m offer ho⟩
  · rintro w ⟨hown, hid, offer, ho, hw⟩
    refine ⟨m, offer, rfl, ho, hid, fun v hv hrole => ?_, hc.provider ▸ hw⟩
    have hv : c.provider.own ((f.store s).findByCorrelation? m.processId) = some v :=
      c.provider.own_eq_some.mpr ⟨hv, hc.provider ▸ hrole⟩
    rw [hown] at hv
    cases hv
  · rintro v ⟨⟨hf, hrole⟩, offer, ho, hr⟩
    exact ⟨hf, .inl ⟨m, offer, rfl, ho, hc.provider ▸ hrole, hr⟩⟩

theorem agreed_ends (hs : (f.store s).Tidy) (m : AgreementMessage) :
    Ends (agreed c env m) s (Reception f ids s (.agreement m)) := by
  refine call_effect h _ _ ?_
  unfold Manager.agreed
  split
  · exact .refused (.refl s) (by simp)
  · rename_i hid
    exact correlated_ends h hs hc.consumer (.agreement m hid)

theorem terminated_ends (hs : (f.store s).Tidy) (m : TerminationMessage) :
    Ends (terminated c env m) s (Reception f ids s (.termination m)) := by
  refine call_effect h _ _ ((h.findByCorrelation m.processId s).bind ?_ ?_)
  · rintro found t ⟨ht, hf⟩
    cases found with
    | none => exact .refused ht (by simp)
    | some n =>
      dsimp only
      split
      · rename_i role hrole
        have hm := correlated_ends h (ht.store.symm ▸ hs) (hc.manager role) (.termination m role)
        refine hm.mono fun r u hu => ?_
        unfold Reception at *
        rw [ht.store] at hu
        exact hu.after ht
      · exact .refused ht (by simp)
  · exact fun fault t ht => .refused ht.1 (by simp)

theorem receive_ends (hs : (f.store s).Tidy) (m : RemoteMessage) (token : ClaimToken) :
    Ends (receive c env m token) s fun r t => (r = .ok none ∧ f.Keeps s t) ∨
      ∃ r', r = r'.map some ∧ Reception f ids s m r' t := by
  cases m with
  | empty => exact .inl ⟨rfl, .refl s⟩
  | request m =>
    exact ends_map.mpr ((requested_ends h c hc hs m token).mono fun r t ht => .inr ⟨r, rfl, ht⟩)
  | offer m =>
    have hm := correlated_ends h hs hc.consumer (.offer m)
    exact ends_map.mpr ((call_effect h _ _ hm).mono fun r t ht => .inr ⟨r, rfl, ht⟩)
  | agreement m =>
    exact ends_map.mpr ((agreed_ends h c hc hs m).mono fun r t ht => .inr ⟨r, rfl, ht⟩)
  | verification m =>
    have hm := correlated_ends h hs hc.provider (.verification m)
    exact ends_map.mpr ((call_effect h _ _ hm).mono fun r t ht => .inr ⟨r, rfl, ht⟩)
  | event m =>
    unfold receive
    dsimp only
    split
    · have hm := correlated_ends h hs hc.consumer (.event m)
      exact ends_map.mpr ((call_effect h _ _ hm).mono fun r t ht => .inr ⟨r, rfl, ht⟩)
    · exact .inl ⟨rfl, .refl s⟩
  | termination m =>
    exact ends_map.mpr ((terminated_ends h c hc hs m).mono fun r t ht => .inr ⟨r, rfl, ht⟩)

end Calls

end Service

end ContractNegotiation
