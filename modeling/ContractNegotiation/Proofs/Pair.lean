import ContractNegotiation.Proofs.Record
import ContractNegotiation.Proofs.Service

namespace ContractNegotiation

namespace State

def isBroken : State → Bool
  | terminating | terminated | cancelled | error => true
  | _ => false

def Together (c p : State) : Prop :=
  (c ∈ [requested, accepted] ∧ p ∈ [consumerRequested, offering, agreeing]) ∨
    (c ∈ [offered, accepting] ∧ p = offered) ∨ (c ∈ [agreed, verifying] ∧ p = agreed) ∨
    (c = verified ∧ p ∈ [verified, finalizing]) ∨ (c = finalized ∧ p = finalized)

instance (c p : State) : Decidable (Together c p) := by
  unfold Together
  infer_instance

end State

def Event.IsOwn : Event → Prop
  | .process .. | .counterOffer _ | .cancel | .decline _ | .fail _ => True
  | _ => False

theorem Event.IsOwn.admissible {event : Event} (h : event.IsOwn) (v : Negotiation) :
    event.Admissible v := by
  cases event with
  | process | counterOffer | cancel | decline | fail => trivial
  | _ => exact h.elim

namespace Negotiation

variable {c c' p p' v w next : Negotiation} {event : Event} {now : Instant}
  {agreementId peer participantId address : String} {m : RemoteMessage}

@[simp] theorem agreement_successor (v next : Negotiation) (peer : String) :
    (v.successor next peer).agreement = next.agreement := by rw [successor_eq]

@[simp] theorem lastOffer?_successor (v next : Negotiation) (peer : String) :
    (v.successor next peer).lastOffer? = next.lastOffer? := by
  rw [successor_eq]
  rfl

/-- Either one side is out of the negotiation, or both are in states that go together and speak of
the same offer, except while a new one is on its way. -/
inductive InStep (c p : Negotiation) : Prop where
  | consumerOut : c.state.isBroken = true → p.state ≠ .finalized → InStep c p
  | providerOut : p.state.isBroken = true → c.state ≠ .finalized → InStep c p
  | together : State.Together c.state p.state →
      (p.state ≠ .offering → c.lastOffer? = p.lastOffer?) → InStep c p

/-- How the records of the two sides fit together. A record whose state count has come round to zero
cannot be written any more, and falls out of step. -/
structure Paired (c p : Negotiation) : Prop where
  agreement : c.agreement = none ∨ c.agreement = p.agreement
  inStep : c.stateCount ≠ 0 → p.stateCount ≠ 0 → InStep c p

theorem InStep.congr (h : InStep c p) (hc : c'.state = c.state) (hp : p'.state = p.state)
    (hco : c'.lastOffer? = c.lastOffer?) (hpo : p'.lastOffer? = p.lastOffer?) : InStep c' p' := by
  cases h with
  | consumerOut h h' => exact .consumerOut (hc ▸ h) (hp ▸ h')
  | providerOut h h' => exact .providerOut (hp ▸ h) (hc ▸ h')
  | together h h' => exact .together (hc ▸ hp ▸ h) fun ho => by rw [hco, hpo, h' (hp ▸ ho)]

theorem InStep.meet (s t : State) (hs : c.stateCode = s.code) (ht : p.stateCode = t.code)
    (hst : State.Together s t) (hlast : t ≠ .offering → c.lastOffer? = p.lastOffer?) :
    InStep c p :=
  .together (by rwa [state_eq hs, state_eq ht]) fun ho => hlast (state_eq ht ▸ ho)

theorem InStep.of_states (h : InStep c p) {s t : State} (hc : c.state = s) (hp : p.state = t)
    (hs : s.isBroken = false) (ht : t.isBroken = false) :
    State.Together s t ∧ (t ≠ .offering → c.lastOffer? = p.lastOffer?) := by
  subst hc hp
  cases h with
  | consumerOut h => simp [h] at hs
  | providerOut h => simp [h] at ht
  | together h h' => exact ⟨h, h'⟩

theorem InStep.not_finalized (h : InStep c p) :
    (c.state.isTerminal = false → p.state ≠ .finalized) ∧
      (p.state.isTerminal = false → c.state ≠ .finalized) := by
  cases h with
  | consumerOut h h' =>
    refine ⟨fun _ => h', fun _ hc => ?_⟩
    rw [hc] at h
    cases h
  | providerOut h h' =>
    refine ⟨fun _ hp => ?_, fun _ => h'⟩
    rw [hp] at h
    cases h
  | together h _ =>
    revert h
    cases c.state <;> cases p.state <;> decide

theorem InStep.finalized_iff (h : InStep c p) : c.state = .finalized ↔ p.state = .finalized := by
  cases h with
  | consumerOut h h' =>
    refine ⟨fun hc => ?_, fun hp => absurd hp h'⟩
    rw [hc] at h
    cases h
  | providerOut h h' =>
    refine ⟨fun hc => absurd hc h', fun hp => ?_⟩
    rw [hp] at h
    cases h
  | together h _ =>
    revert h
    cases c.state <;> cases p.state <;> decide

theorem InStep.consumerMoves (h : InStep c p) (hr : c.role = some .consumer)
    (hrow : Row c now agreementId event next none) (hown : event.IsOwn) : InStep next p := by
  have out (s : State) (hs : next.stateCode = s.code) (hb : s.isBroken = true) : InStep next p :=
    .consumerOut (state_eq hs ▸ hb) (h.not_finalized.1 hrow.isTerminal)
  have goes {s : State} (s' : State) (hs : c.state = s) (hs' : next.stateCode = s'.code)
      (hlast : next.lastOffer? = c.lastOffer?) (hnf : s' ≠ .finalized) (hb : s.isBroken = false)
      (ht : ∀ t, State.Together s t → State.Together s' t) : InStep next p := by
    replace hs' := state_eq hs'
    cases h with
    | consumerOut h => simp [← hs, h] at hb
    | providerOut h _ => exact .providerOut h (hs' ▸ hnf)
    | together h h' => exact .together (hs' ▸ ht _ (hs ▸ h)) fun ho => hlast ▸ h' ho
  cases hrow with
  | accept _ _ _ hs =>
    refine goes .accepting hs rfl rfl (by decide) rfl ?_
    rintro (_ | _) <;> decide
  | check _ _ _ hs =>
    refine goes .verifying hs rfl rfl (by decide) rfl ?_
    rintro (_ | _) <;> decide
  | cancel => exact out .cancelled rfl rfl
  | decline => exact out .terminating rfl rfl
  | fail => exact out .error rfl rfl
  | draft _ _ hr' | prepare _ _ hr' | counter _ hr' => simp [hr] at hr'
  | requested | offered | agreed | verified | finalized | terminated => exact hown.elim

theorem InStep.providerMoves (h : InStep c p) (hr : p.role = some .provider)
    (hrow : Row p now agreementId event next none) (hown : event.IsOwn) : InStep c next := by
  have out (s : State) (hs : next.stateCode = s.code) (hb : s.isBroken = true) : InStep c next :=
    .providerOut (state_eq hs ▸ hb) (h.not_finalized.2 hrow.isTerminal)
  have goes {s : State} (s' : State) (hs : p.state = s) (hs' : next.stateCode = s'.code)
      (hnf : s' ≠ .finalized) (hb : s.isBroken = false)
      (ht : ∀ t, State.Together t s → State.Together t s')
      (hlast : s' ≠ .offering → s ≠ .offering ∧ next.lastOffer? = p.lastOffer?) :
      InStep c next := by
    replace hs' := state_eq hs'
    cases h with
    | consumerOut h _ => exact .consumerOut h (hs' ▸ hnf)
    | providerOut h => simp [← hs, h] at hb
    | together h h' =>
      refine .together (hs' ▸ ht _ (hs ▸ h)) fun ho => ?_
      obtain ⟨ho', hlast⟩ := hlast (hs' ▸ ho)
      rw [hlast, h' (hs ▸ ho')]
  cases hrow with
  | draft _ _ _ hs =>
    refine goes .agreeing hs rfl (by decide) rfl ?_ fun _ => ⟨by decide, rfl⟩
    rintro (_ | _) <;> decide
  | prepare _ _ _ hs =>
    refine goes .finalizing hs rfl (by decide) rfl ?_ fun _ => ⟨by decide, rfl⟩
    rintro (_ | _) <;> decide
  | counter _ _ hs =>
    refine goes .offering hs rfl (by decide) rfl ?_ fun ho => absurd rfl ho
    rintro (_ | _) <;> decide
  | decline => exact out .terminating rfl rfl
  | fail => exact out .error rfl rfl
  | accept _ _ hr' | check _ _ hr' | cancel hr' => simp [hr] at hr'
  | requested | offered | agreed | verified | finalized | terminated => exact hown.elim

inductive Heard (m : RemoteMessage) (v : Negotiation) : Negotiation → Prop where
  | moved {event : Event} {agreementId : String} {now : Instant} {next : Negotiation}
      {message : Option RemoteMessage} {role : Role} : v.stateCount ≠ 0 → v.role = some role →
      m.Means role event → Row v now agreementId event next message →
      Heard m v (v.successor next "")
  | repeated {request : RequestMessage} {offer : Offer} : m = .request request →
      v.role = some .provider → Manager.Repeated v offer → Heard m v v
  | terminated {termination : TerminationMessage} : m = .termination termination →
      v.state = .terminated → Heard m v v

theorem Heard.of_termination {termination : TerminationMessage}
    (h : Heard (.termination termination) v w) : w.state = .terminated := by
  cases h with
  | moved _ _ hm hrow =>
    cases hm with
    | termination _ role =>
      cases hrow with
      | terminated => simpa using state_eq rfl
  | repeated hm => cases hm
  | terminated _ hs => exact hs

theorem lastOffer?_addOffer (n : Negotiation) (o : Offer) : (n.addOffer o).lastOffer? = some o := by
  simp [lastOffer?, addOffer]

theorem WellFormed.lastOffer? (h : v.WellFormed) : ∃ o, v.lastOffer? = some o := by
  cases ho : v.lastOffer? with
  | none => exact absurd (List.getLast?_eq_none_iff.mp ho) h.offers
  | some o => exact ⟨o, rfl⟩

theorem InStep.successor_left (h : InStep next p) (v : Negotiation) (peer : String) :
    InStep (v.successor next peer) p :=
  h.congr (state_successor ..) rfl (lastOffer?_successor ..) rfl

theorem InStep.successor_right (h : InStep c next) (v : Negotiation) (peer : String) :
    InStep c (v.successor next peer) :=
  h.congr rfl (state_successor ..) rfl (lastOffer?_successor ..)

theorem InStep.consumerSends (h : InStep c p) (hc : c.role = some .consumer)
    (hrow : Row c now agreementId (.process participantId address) next (some m))
    (heard : Heard m p p') : InStep next p' := by
  cases hrow with
  | request _ _ _ hs =>
    exfalso
    cases heard with
    | moved _ _ hm hrow' =>
      cases hm with
      | request =>
        cases hrow' with
        | requested _ _ hs' => exact absurd (h.of_states hs hs' rfl rfl).1 (by decide)
    | repeated _ _ hrep => exact absurd (h.of_states hs hrep.1 rfl rfl).1 (by decide)
    | terminated hm => cases hm
  | confirm _ _ _ hs =>
    cases heard with
    | moved _ _ hm hrow' =>
      cases hm with
      | request _ offer ho =>
        cases hrow' with
        | requested =>
          refine (meet .accepted .consumerRequested rfl rfl (by decide)
            fun _ => ?_).successor_right ..
          exact Eq.trans ho (lastOffer?_addOffer ..).symm
    | repeated _ _ hrep => exact absurd (h.of_states hs hrep.1 rfl rfl).1 (by decide)
    | terminated hm => cases hm
  | verify _ _ _ hs =>
    cases heard with
    | moved _ _ hm hrow' =>
      cases hm with
      | verification =>
        cases hrow' with
        | verified _ hs' =>
          have hlast := (h.of_states hs hs' rfl rfl).2 (by decide)
          refine (meet .verified .verified rfl rfl (by decide) fun _ => ?_).successor_right ..
          exact hlast
    | repeated hm => cases hm
    | terminated hm => cases hm
  | terminate =>
    refine .consumerOut (by rw [state_enter]; rfl) ?_
    rw [heard.of_termination]
    decide
  | offer _ _ hr | agree _ _ _ hr | finalize _ _ hr => simp [hc] at hr

theorem InStep.providerSends (h : InStep c p) (hwf : p.WellFormed) (hp : p.role = some .provider)
    (hrow : Row p now agreementId (.process participantId address) next (some m))
    (heard : Heard m c c') : InStep c' next := by
  cases hrow with
  | offer =>
    cases heard with
    | moved _ _ hm hrow' =>
      cases hm with
      | offer =>
        cases hrow' with
        | offered =>
          refine (meet .offered .offered rfl rfl (by decide) fun _ => ?_).successor_left ..
          obtain ⟨o, ho⟩ := hwf.lastOffer?
          rw [lastOffer?_addOffer, ho]
          exact ho.symm
    | repeated hm => cases hm
    | terminated hm => cases hm
  | agree _ _ _ _ hs =>
    cases heard with
    | moved _ _ hm hrow' =>
      cases hm with
      | agreement =>
        cases hrow' with
        | agreed _ _ _ hs' =>
          have hlast : c.lastOffer? = p.lastOffer? := by
            simp only [List.mem_cons, List.not_mem_nil, or_false] at hs'
            rcases hs' with hs' | hs' | hs' | hs' <;>
              exact (h.of_states hs' hs rfl rfl).2 (by decide)
          refine (meet .agreed .agreed rfl rfl (by decide) fun _ => ?_).successor_left ..
          exact hlast
    | repeated hm => cases hm
    | terminated hm => cases hm
  | finalize _ _ _ hs =>
    cases heard with
    | moved _ _ hm hrow' =>
      cases hm with
      | event =>
        cases hrow' with
        | finalized _ hs' =>
          have hlast : c.lastOffer? = p.lastOffer? := by
            simp only [List.mem_cons, List.not_mem_nil, or_false] at hs'
            rcases hs' with hs' | hs' <;> exact (h.of_states hs' hs rfl rfl).2 (by decide)
          refine (meet .finalized .finalized rfl rfl (by decide) fun _ => ?_).successor_left ..
          exact hlast
    | repeated hm => cases hm
    | terminated hm => cases hm
  | terminate =>
    refine .providerOut (by rw [state_enter]; rfl) ?_
    rw [heard.of_termination]
    decide
  | request _ _ hr | confirm _ _ hr | verify _ _ hr => simp [hp] at hr

theorem Heard.counted (h : Heard m v w) (hw : w.stateCount ≠ 0) : v.stateCount ≠ 0 := by
  cases h with
  | moved hc => exact hc
  | repeated => exact hw
  | terminated => exact hw

theorem Heard.agreement (h : Heard m v w) (hm : ∀ x, m ≠ .agreement x) :
    w.agreement = v.agreement := by
  cases h with
  | moved _ _ hmeans hrow =>
    rw [agreement_successor]
    cases hmeans with
    | agreement x => exact absurd rfl (hm x)
    | request => cases hrow; rfl
    | offer => cases hrow; rfl
    | verification => cases hrow; rfl
    | event => cases hrow; rfl
    | termination => cases hrow; rfl
  | repeated => rfl
  | terminated => rfl

theorem Heard.of_agreement {x : AgreementMessage} (h : Heard (.agreement x) v w) :
    w.agreement = some { x.agreement.getD {} with
      policy := some ((x.agreement.getD {}).policy.getD (x.policy.getD {})) } := by
  cases h with
  | moved _ _ hmeans hrow =>
    rw [agreement_successor]
    cases hmeans with
    | agreement => cases hrow; rfl
  | repeated hm => cases hm
  | terminated hm => cases hm

structure Sound (n : Negotiation) : Prop extends n.WellFormed where
  policy : n.role = some .provider → ∀ a, n.agreement = some a → a.policy ≠ none

theorem Row.policy {message : Option RemoteMessage}
    (h : Row v now agreementId event next message) (hv : v.Sound)
    (hr : next.role = some .provider) : ∀ a, next.agreement = some a → a.policy ≠ none := by
  have hdraft (participantId : String) :
      (v.draftAgreement participantId now agreementId).policy ≠ none := by
    obtain ⟨o, ho⟩ := hv.lastOffer?
    simp [draftAgreement, ho]
  rw [h.continues.role] at hr
  intro a ha
  cases h with
  | draft participantId _ =>
    obtain rfl := Option.some.inj ha
    exact hdraft participantId
  | agree participantId _ b _ _ hb =>
    obtain rfl := Option.some.inj ha
    cases hown : v.agreement with
    | none =>
      rw [hb, hown]
      exact hdraft participantId
    | some b =>
      rw [hb, hown]
      exact hv.policy hr b hown
  | agreed _ _ hr' => simp [hr] at hr'
  | _ => exact hv.policy hr a ha

theorem Follows.sound (h : v.Follows event agreementId peer w) (hv : v.Sound)
    (he : event.Admissible v) (hid : v.drawsId event = true → agreementId ≠ "") : w.Sound := by
  refine ⟨h.wellFormed hv.toWellFormed he hid, ?_⟩
  obtain ⟨now, next, message, ht, rfl⟩ := h
  simp only [successor_eq]
  exact (row_of_transition ht).policy hv

theorem First.sound (h : w.First) : w.Sound := by
  refine ⟨h.wellFormed, fun _ a ha => ?_⟩
  rcases h with ⟨_, _, h⟩ | ⟨_, _, _, _, h⟩ <;> simp [h.agreement] at ha

theorem Paired.consumerMoves (h : Paired c p) (peer : String) (hr : c.role = some .consumer)
    (hcount : c.stateCount ≠ 0) (hrow : Row c now agreementId event next none)
    (hown : event.IsOwn) : Paired (c.successor next peer) p := by
  refine ⟨?_, fun _ hp => ((h.inStep hcount hp).consumerMoves hr hrow hown).successor_left ..⟩
  rw [agreement_successor]
  cases hrow with
  | draft _ _ hr' => simp [hr] at hr'
  | agreed => exact hown.elim
  | _ => exact h.agreement

theorem Paired.providerMoves (h : Paired c p) (peer : String) (hwf : p.WellFormed)
    (hr : p.role = some .provider) (hcount : p.stateCount ≠ 0)
    (hrow : Row p now agreementId event next none) (hown : event.IsOwn) :
    Paired c (p.successor next peer) := by
  refine ⟨?_, fun hc _ => ((h.inStep hc hcount).providerMoves hr hrow hown).successor_right ..⟩
  rw [agreement_successor]
  cases hrow with
  | draft _ _ _ hs =>
    have hnone := hwf.unbound (by rw [hs]; decide)
    have hc := h.agreement
    rw [hnone, or_self] at hc
    exact .inl hc
  | agreed => exact hown.elim
  | _ => exact h.agreement

theorem Paired.consumerSends (h : Paired c p) (peer : String) (hr : c.role = some .consumer)
    (hrow : Row c now agreementId (.process participantId address) next (some m))
    (heard : Heard m p p') : (c.stateCount ≠ 0 → Paired (c.successor next peer) p') ∧
      (c.stateCount = 0 → Paired c p') := by
  have hm (x : AgreementMessage) : m ≠ .agreement x := by
    rintro rfl
    cases hrow with
    | agree _ _ _ hr' => simp [hr] at hr'
  have hp : c.agreement = none ∨ c.agreement = p'.agreement := by
    rw [heard.agreement hm]
    exact h.agreement
  have hkept : next.agreement = c.agreement := by
    cases hrow with
    | agree _ _ _ hr' => simp [hr] at hr'
    | _ => rfl
  constructor
  · intro hc
    refine ⟨by rwa [agreement_successor, hkept], fun _ hp' => ?_⟩
    have hin := h.inStep hc (heard.counted hp')
    exact (hin.consumerSends hr hrow heard).successor_left ..
  · exact fun hc => ⟨hp, fun hc' => absurd hc hc'⟩

theorem Paired.providerSends (h : Paired c p) (peer : String) (hs : p.Sound)
    (hr : p.role = some .provider)
    (hrow : Row p now agreementId (.process participantId address) next (some m))
    (heard : Heard m c c') : (p.stateCount ≠ 0 → Paired c' (p.successor next peer)) ∧
      (p.stateCount = 0 → Paired c' p) := by
  have hagree : next.agreement = p.agreement ∧
      (c'.agreement = none ∨ c'.agreement = p.agreement) := by
    have kept (hm : ∀ x, m ≠ .agreement x) :
        c'.agreement = none ∨ c'.agreement = p.agreement := by
      rw [heard.agreement hm]
      exact h.agreement
    cases hrow with
    | offer | finalize | terminate => exact ⟨rfl, kept (by simp)⟩
    | agree _ _ a _ hst ha =>
      obtain ⟨b, hb, -⟩ := hs.bound (by rw [hst]; decide)
      obtain rfl : a = b := by rw [ha, hb, Option.getD_some]
      have hpolicy := hs.policy hr a hb
      refine ⟨hb.symm, .inr ?_⟩
      rw [heard.of_agreement, hb]
      obtain ⟨policy, hpolicy⟩ := Option.ne_none_iff_exists'.mp hpolicy
      have he : some ((a.policy).getD (a.policy.getD {})) = a.policy := by
        rw [hpolicy, Option.getD_some]
      exact congrArg (fun policy => some { a with policy }) he
    | request _ _ hr' | confirm _ _ hr' | verify _ _ hr' => simp [hr] at hr'
  constructor
  · intro hp
    refine ⟨by rw [agreement_successor, hagree.1]; exact hagree.2, fun hc' _ => ?_⟩
    have hin := h.inStep (heard.counted hc') hp
    exact (hin.providerSends hs.toWellFormed hr hrow heard).successor_right ..
  · exact fun hp => ⟨hagree.2, fun _ hp' => absurd hp hp'⟩

structure SameParty (v w : Negotiation) : Prop where
  id : w.id = v.id
  role : w.role = v.role
  counterPartyAddress : w.counterPartyAddress = v.counterPartyAddress
  correlationId : v.correlationId ≠ "" → w.correlationId = v.correlationId

theorem SameParty.refl (v : Negotiation) : v.SameParty v := ⟨rfl, rfl, rfl, fun _ => rfl⟩

theorem Row.sameParty {message : Option RemoteMessage}
    (h : Row v now agreementId event next message) (peer : String) :
    v.SameParty (v.successor next peer) := by
  have hc := h.continues
  rw [successor_eq]
  refine ⟨hc.id, hc.role, hc.counterPartyAddress, fun hv => ?_⟩
  dsimp only
  rw [hc.correlationId, if_neg hv]

theorem Heard.sameParty (h : Heard m v w) : v.SameParty w := by
  cases h with
  | moved _ _ _ hrow => exact hrow.sameParty ""
  | repeated => exact .refl v
  | terminated => exact .refl v

theorem Paired.first {request : RequestMessage} {o : Offer} {address' : String}
    (hs : c.state = .requesting) (hnone : c.agreement = none)
    (hrow : Row c now agreementId (.process participantId address) next (some (.request request)))
    (ho : request.offer = some o) (hp : p.Starts .provider .consumerRequested c.id address' o) :
    Paired (c.successor next peer) p := by
  cases hrow with
  | request =>
    refine ⟨.inl (by rw [agreement_successor]; exact hnone), fun _ _ => ?_⟩
    have hlast : p.lastOffer? = some o := by simp [lastOffer?, hp.offers]
    refine (InStep.meet .requested .consumerRequested rfl hp.stateCode (by decide)
      fun _ => ?_).successor_left ..
    exact Eq.trans ho hlast.symm
  | confirm _ _ _ hs' => simp [hs] at hs'

end Negotiation

end ContractNegotiation
