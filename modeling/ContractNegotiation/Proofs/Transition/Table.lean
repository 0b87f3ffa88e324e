import ContractNegotiation.Proofs.Transition

namespace ContractNegotiation

inductive Terms where
  | kept
  | drafted
  | settled
  | recorded

inductive Letter where
  | request
  | offer
  | agreement
  | verification
  | finalization
  | termination

/-- A row of the table. Without a role it is for records of any type. -/
structure Rule where
  role : Option Role := none
  sources : List State
  target : State
  terms : Terms := .kept
  letter : Option Letter := none

def State.active : List State :=
  [initial, requesting, requested, consumerRequested, offering, offered, accepting, accepted,
    agreeing, agreed, verifying, verified, finalizing, terminating]

def Rule.turns : List Rule :=
  [{ role := some .consumer, sources := [.requesting], target := .requested,
     letter := some .request },
   { role := some .consumer, sources := [.offered], target := .accepting },
   { role := some .consumer, sources := [.accepting], target := .accepted,
     letter := some .request },
   { role := some .consumer, sources := [.agreed], target := .verifying },
   { role := some .consumer, sources := [.verifying], target := .verified,
     letter := some .verification },
   { role := some .provider, sources := [.consumerRequested], target := .agreeing,
     terms := .drafted },
   { role := some .provider, sources := [.offering], target := .offered, letter := some .offer },
   { role := some .provider, sources := [.agreeing], target := .agreed, terms := .settled,
     letter := some .agreement },
   { role := some .provider, sources := [.verified], target := .finalizing },
   { role := some .provider, sources := [.finalizing], target := .finalized,
     letter := some .finalization },
   { sources := [.terminating], target := .terminated, letter := some .termination }]

namespace Event

def rules : Event → List Rule
  | process .. => Rule.turns
  | requestReceived _ =>
    [{ role := some .provider, sources := [.offered], target := .consumerRequested }]
  | offerReceived _ =>
    [{ role := some .consumer, sources := [.requested, .accepted], target := .offered }]
  | counterOffer _ =>
    [{ role := some .provider, sources := [.consumerRequested], target := .offering }]
  | agreementReceived .. =>
    [{ role := some .consumer, sources := [.requesting, .requested, .accepting, .accepted],
       target := .agreed, terms := .recorded }]
  | verificationReceived =>
    [{ role := some .provider, sources := [.agreed], target := .verified }]
  | finalizationReceived =>
    [{ role := some .consumer, sources := [.verifying, .verified], target := .finalized }]
  | terminationReceived _ => [{ sources := State.active, target := .terminated }]
  | cancel =>
    [{ role := some .consumer, target := .cancelled,
       sources := [.initial, .requesting, .requested, .consumerRequested, .offering, .offered,
         .accepting, .accepted, .agreeing] }]
  | decline _ => [{ sources := State.active, target := .terminating }]
  | fail _ => [{ sources := State.active, target := .error }]

def offer? : Event → Option Offer
  | requestReceived offer | offerReceived offer | counterOffer offer => some offer
  | _ => none

def detail? : Event → Option String
  | terminationReceived detail | decline detail | fail detail => some detail
  | _ => none

def agreement? : Event → Option Agreement
  | agreementReceived agreement policy =>
    some { agreement with policy := some (agreement.policy.getD policy) }
  | _ => none

def participantId : Event → String
  | process participantId _ => participantId
  | _ => ""

def callbackAddress : Event → String
  | process _ callbackAddress => callbackAddress
  | _ => ""

end Event

structure Rule.Covers (rule : Rule) (n : Negotiation) : Prop where
  role : ∀ role, rule.role = some role → n.role = some role
  source : n.stateCode ∈ rule.sources.map State.code

namespace Negotiation

structure Drafts (n : Negotiation) (participantId : String) (now : Instant) (id : String)
    (agreement : Agreement) : Prop where
  id : agreement.id = id
  providerAgentId : agreement.providerAgentId = participantId
  consumerAgentId : agreement.consumerAgentId = n.counterPartyId
  signingDate : agreement.signingDate = now.toSeconds
  terms : ∀ offer, n.offers.getLast? = some offer → agreement.assetId = offer.assetId ∧
    agreement.policy = some (offer.policy.getD {}) ∧
    agreement.startDate = offer.contractStart ∧ agreement.endDate = offer.contractEnd

variable {n next : Negotiation} {event : Event} {now : Instant} {agreementId : String}
  {message : Option RemoteMessage} {rule : Rule}

def Settles (n : Negotiation) (event : Event) (now : Instant) (agreementId : String)
    (next : Negotiation) : Terms → Prop
  | .kept => next.agreement = n.agreement
  | .drafted =>
    ∃ draft, next.agreement = some draft ∧ n.Drafts event.participantId now agreementId draft
  | .settled =>
    (∀ agreement, n.agreement = some agreement → next.agreement = some agreement) ∧
      (n.agreement = none →
        ∃ draft, next.agreement = some draft ∧ n.Drafts event.participantId now agreementId draft)
  | .recorded => next.agreement = event.agreement?

def letter (n : Negotiation) (event : Event) (next : Negotiation) : Letter → RemoteMessage
  | .request =>
    .request ⟨n.routing, event.participantId, event.callbackAddress, n.offers.getLast?⟩
  | .offer => .offer ⟨n.routing, n.offers.getLast?⟩
  | .agreement =>
    .agreement ⟨n.routing, next.agreement, next.agreement.map (·.policy.getD {})⟩
  | .verification => .verification ⟨n.routing⟩
  | .finalization => .event ⟨n.routing, .finalized⟩
  | .termination => .termination ⟨n.routing, n.errorDetail⟩

structure Obeys (n : Negotiation) (event : Event) (now : Instant) (agreementId : String)
    (rule : Rule) (next : Negotiation) (message : Option RemoteMessage) : Prop where
  target : next.stateCode = rule.target.code
  timestamp : next.stateTimestamp = now.toMillis
  offers : next.offers = n.offers ++ event.offer?.toList
  errorDetail : next.errorDetail = event.detail?.getD n.errorDetail
  agreement : n.Settles event now agreementId next rule.terms
  frame : next = { n with
    stateCode := next.stateCode
    stateTimestamp := next.stateTimestamp
    offers := next.offers
    agreement := next.agreement
    errorDetail := next.errorDetail }
  message : message = rule.letter.map (n.letter event next)

structure Tabled (n : Negotiation) (event : Event) (now : Instant) (agreementId : String) :
    Prop where
  applied : (∃ next message, n.transition event now agreementId = .applied next message) ↔
    ∃ rule ∈ event.rules, rule.Covers n
  obeys : ∀ next message, n.transition event now agreementId = .applied next message →
    ∀ rule ∈ event.rules, rule.Covers n → n.Obeys event now agreementId rule next message
  unchanged : n.transition event now agreementId = .unchanged ↔
    (∃ reason, event = .terminationReceived reason) ∧ n.stateCode = State.terminated.code
  unknown : (∀ s : State, n.stateCode ≠ s.code) →
    n.transition event now agreementId = .rejected
  speaks : ∀ next message, n.transition event now agreementId = .applied next message →
    (message.isSome ↔ (∃ participantId callbackAddress,
      event = .process participantId callbackAddress) ∧
      (n.role = some .consumer ∧ n.state ∈ [.requesting, .accepting, .verifying] ∨
        n.role = some .provider ∧ n.state ∈ [.offering, .agreeing, .finalizing] ∨
        n.state = .terminating))
  polled : ∀ participantId callbackAddress role, event = .process participantId callbackAddress →
    n.role = some role →
    (n.state ∈ State.processable role ↔ ∃ next message,
      n.transition event now agreementId = .applied next message)

theorem stateCode_mem_iff {sources : List State} (he : .error ∉ sources) :
    n.stateCode ∈ sources.map State.code ↔ n.state ∈ sources := by
  constructor
  · intro h
    obtain ⟨s, hs, hc⟩ := List.mem_map.mp h
    rwa [state, ← hc, State.ofCode_code]
  · intro h
    refine List.mem_map.mpr ⟨n.state, h, ?_⟩
    unfold state State.ofCode at h ⊢
    cases ho : State.ofCode? n.stateCode with
    | none =>
      rw [ho, Option.getD_none] at h
      exact absurd h he
    | some s => exact State.code_of_ofCode? ho

theorem isTerminal_eq_false_iff (s : State) : s.isTerminal = false ↔ s ∈ State.active := by
  cases s <;> decide

theorem error_not_mem_sources (hrule : rule ∈ event.rules) : .error ∉ rule.sources := by
  revert rule
  cases event <;> simp only [Event.rules] <;> decide

theorem covers_iff (hrule : rule ∈ event.rules) : rule.Covers n ↔
    (∀ role, rule.role = some role → n.role = some role) ∧ n.state ∈ rule.sources := by
  rw [← stateCode_mem_iff (error_not_mem_sources hrule)]
  exact ⟨fun h => ⟨h.role, h.source⟩, fun h => ⟨h.1, h.2⟩⟩

theorem Row.transition (h : Row n now agreementId event next message) :
    n.transition event now agreementId = .applied next message := by
  cases h with
  | terminated reason hs =>
    have hne : n.state ≠ .terminated := by
      intro h
      simp [h, State.isTerminal] at hs
    simp [Negotiation.transition, hs, hne]
  | _ => simp_all [Negotiation.transition, advance, advanceConsumer, advanceProvider]

theorem isBeforeAgreed_iff (s : State) : s.isBeforeAgreed = true ↔
    s ∈ [State.initial, .requesting, .requested, .consumerRequested, .offering, .offered,
      .accepting, .accepted, .agreeing] := by
  cases s <;> decide

theorem Row.covered (h : Row n now agreementId event next message) :
    ∃ rule ∈ event.rules, rule.Covers n := by
  suffices ∃ rule ∈ event.rules,
      (∀ role, rule.role = some role → n.role = some role) ∧ n.state ∈ rule.sources by
    obtain ⟨rule, hrule, h⟩ := this
    exact ⟨rule, hrule, (covers_iff hrule).mpr h⟩
  cases h <;>
    simp_all [Event.rules, Rule.turns, isTerminal_eq_false_iff, isBeforeAgreed_iff]

theorem drafts_draftAgreement (n : Negotiation) (participantId : String) (now : Instant)
    (id : String) : n.Drafts participantId now id (n.draftAgreement participantId now id) := by
  unfold draftAgreement lastOffer?
  cases ho : n.offers.getLast? with
  | none => exact ⟨rfl, rfl, rfl, rfl, fun offer h => by rw [ho] at h; cases h⟩
  | some last =>
    refine ⟨rfl, rfl, rfl, rfl, fun offer h => ?_⟩
    rw [ho] at h
    cases h
    exact ⟨rfl, rfl, rfl, rfl⟩

theorem obeys_of_settles {agreement : Option Agreement} {detail : String}
    (hoffer : event.offer? = none) (hdetail : detail = event.detail?.getD n.errorDetail)
    (hterms : n.Settles event now agreementId
      { n.enter rule.target now with agreement := agreement, errorDetail := detail } rule.terms)
    (hmessage : message = rule.letter.map (n.letter event
      { n.enter rule.target now with agreement := agreement, errorDetail := detail })) :
    n.Obeys event now agreementId rule
      { n.enter rule.target now with agreement := agreement, errorDetail := detail } message where
  target := rfl
  timestamp := rfl
  offers := by simp [hoffer, enter]
  errorDetail := hdetail
  agreement := hterms
  frame := rfl
  message := hmessage

theorem obeys_of_offer {offer : Offer} (hoffer : event.offer? = some offer)
    (hdetail : event.detail? = none) (hterms : rule.terms = .kept) (hletter : rule.letter = none) :
    n.Obeys event now agreementId rule ((n.enter rule.target now).addOffer offer) none where
  target := rfl
  timestamp := rfl
  offers := by simp [hoffer, enter, addOffer]
  errorDetail := by simp [hdetail, enter, addOffer]
  agreement := by simp [hterms, Settles, enter, addOffer]
  frame := rfl
  message := by simp [hletter]

theorem row_of_turn {p c : String} (hrule : rule ∈ Rule.turns) (hc : rule.Covers n) :
    ∃ next message, Row n now agreementId (.process p c) next message ∧
      n.Obeys (.process p c) now agreementId rule next message := by
  have hmem : rule ∈ (Event.process p c).rules := hrule
  obtain ⟨hrole, hs⟩ := (covers_iff hmem).mp hc
  simp only [Rule.turns, List.mem_cons, List.not_mem_nil, or_false] at hrule
  rcases hrule with rfl | rfl | rfl | rfl | rfl | rfl | rfl | rfl | rfl | rfl | rfl <;>
    simp only [Option.some.injEq, forall_eq', List.mem_singleton] at hrole hs
  · exact ⟨_, _, .request p c hrole hs, obeys_of_settles rfl rfl rfl rfl⟩
  · exact ⟨_, _, .accept p c hrole hs, obeys_of_settles rfl rfl rfl rfl⟩
  · exact ⟨_, _, .confirm p c hrole hs, obeys_of_settles rfl rfl rfl rfl⟩
  · exact ⟨_, _, .check p c hrole hs, obeys_of_settles rfl rfl rfl rfl⟩
  · exact ⟨_, _, .verify p c hrole hs, obeys_of_settles rfl rfl rfl rfl⟩
  · exact ⟨_, _, .draft p c hrole hs, obeys_of_settles rfl rfl
      ⟨_, rfl, drafts_draftAgreement n p now agreementId⟩ rfl⟩
  · exact ⟨_, _, .offer p c hrole hs, obeys_of_settles rfl rfl rfl rfl⟩
  · refine ⟨_, _, .agree p c _ hrole hs rfl, obeys_of_settles rfl rfl ⟨?_, ?_⟩ rfl⟩
    · intro agreement ha
      simp [ha]
    · intro ha
      exact ⟨_, by simp [ha], drafts_draftAgreement n p now agreementId⟩
  · exact ⟨_, _, .prepare p c hrole hs, obeys_of_settles rfl rfl rfl rfl⟩
  · exact ⟨_, _, .finalize p c hrole hs, obeys_of_settles rfl rfl rfl rfl⟩
  · exact ⟨_, _, .terminate p c hs, obeys_of_settles rfl rfl rfl rfl⟩

theorem row_of_covers (hrule : rule ∈ event.rules) (hc : rule.Covers n) :
    ∃ next message, Row n now agreementId event next message ∧
      n.Obeys event now agreementId rule next message := by
  obtain ⟨hrole, hs⟩ := (covers_iff hrule).mp hc
  cases event with
  | process p c => exact row_of_turn hrule hc
  | requestReceived o =>
    cases List.mem_singleton.mp hrule
    exact ⟨_, _, .requested o (hrole _ rfl) (List.mem_singleton.mp hs),
      obeys_of_offer rfl rfl rfl rfl⟩
  | offerReceived o =>
    cases List.mem_singleton.mp hrule
    exact ⟨_, _, .offered o (hrole _ rfl) hs, obeys_of_offer rfl rfl rfl rfl⟩
  | counterOffer o =>
    cases List.mem_singleton.mp hrule
    exact ⟨_, _, .counter o (hrole _ rfl) (List.mem_singleton.mp hs),
      obeys_of_offer rfl rfl rfl rfl⟩
  | agreementReceived a p =>
    cases List.mem_singleton.mp hrule
    exact ⟨_, _, .agreed a p (hrole _ rfl) hs, obeys_of_settles rfl rfl rfl rfl⟩
  | verificationReceived =>
    cases List.mem_singleton.mp hrule
    exact ⟨_, _, .verified (hrole _ rfl) (List.mem_singleton.mp hs),
      obeys_of_settles rfl rfl rfl rfl⟩
  | finalizationReceived =>
    cases List.mem_singleton.mp hrule
    exact ⟨_, _, .finalized (hrole _ rfl) hs, obeys_of_settles rfl rfl rfl rfl⟩
  | terminationReceived reason =>
    cases List.mem_singleton.mp hrule
    exact ⟨_, _, .terminated reason ((isTerminal_eq_false_iff _).mpr hs),
      obeys_of_settles rfl rfl rfl rfl⟩
  | cancel =>
    cases List.mem_singleton.mp hrule
    exact ⟨_, _, .cancel (hrole _ rfl) ((isBeforeAgreed_iff _).mpr hs),
      obeys_of_settles rfl rfl rfl rfl⟩
  | decline reason =>
    cases List.mem_singleton.mp hrule
    exact ⟨_, _, .decline reason ((isTerminal_eq_false_iff _).mpr hs),
      obeys_of_settles rfl rfl rfl rfl⟩
  | fail cause =>
    cases List.mem_singleton.mp hrule
    exact ⟨_, _, .fail cause ((isTerminal_eq_false_iff _).mpr hs),
      obeys_of_settles rfl rfl rfl rfl⟩

theorem isSome_message_iff (h : Row n now agreementId event next message) :
    message.isSome ↔ (∃ participantId callbackAddress,
      event = .process participantId callbackAddress) ∧
      (n.role = some .consumer ∧ n.state ∈ [.requesting, .accepting, .verifying] ∨
        n.role = some .provider ∧ n.state ∈ [.offering, .agreeing, .finalizing] ∨
        n.state = .terminating) := by
  cases h <;> simp_all

theorem mem_processable_iff {p c : String} {role : Role} (hrole : n.role = some role) :
    n.state ∈ State.processable role ↔
      ∃ rule ∈ (Event.process p c).rules, rule.Covers n := by
  have hcovers : (∃ rule ∈ (Event.process p c).rules, rule.Covers n) ↔
      ∃ rule ∈ Rule.turns, (∀ role, rule.role = some role → n.role = some role) ∧
        n.state ∈ rule.sources :=
    exists_congr fun rule => and_congr_right fun hrule => covers_iff hrule
  rw [hcovers]
  cases role <;> simp [State.processable, Rule.turns, hrole]

theorem transition_eq_unchanged_iff : n.transition event now agreementId = .unchanged ↔
    (∃ reason, event = .terminationReceived reason) ∧ n.stateCode = State.terminated.code := by
  have hstate : n.state = .terminated ↔ n.stateCode = State.terminated.code := by
    have hmem : n.stateCode ∈ [State.terminated].map State.code ↔ n.state ∈ [State.terminated] :=
      stateCode_mem_iff (by decide)
    simpa using hmem.symm
  rw [← hstate]
  constructor
  · intro h
    obtain ⟨hs, hreason⟩ := transition_unchanged h
    exact ⟨hreason, hs⟩
  · rintro ⟨⟨reason, rfl⟩, hs⟩
    simp [Negotiation.transition, hs]

theorem applied_iff :
    (∃ next message, n.transition event now agreementId = .applied next message) ↔
      ∃ rule ∈ event.rules, rule.Covers n := by
  constructor
  · rintro ⟨next, message, h⟩
    exact (row_of_transition h).covered
  · rintro ⟨rule, hrule, hc⟩
    obtain ⟨next, message, hrow, -⟩ := row_of_covers hrule hc
    exact ⟨next, message, hrow.transition⟩

theorem transition_tabled (n : Negotiation) (event : Event) (now : Instant)
    (agreementId : String) : n.Tabled event now agreementId where
  applied := applied_iff
  obeys := by
    intro next message h rule hrule hc
    obtain ⟨next', message', hrow, hobeys⟩ := row_of_covers hrule hc
    cases h.symm.trans hrow.transition
    exact hobeys
  unchanged := transition_eq_unchanged_iff
  unknown := by
    intro hcode
    cases h : n.transition event now agreementId with
    | applied next message =>
      obtain ⟨rule, -, hc⟩ := applied_iff.mp ⟨next, message, h⟩
      obtain ⟨s, -, hs⟩ := List.mem_map.mp hc.source
      exact absurd hs.symm (hcode s)
    | unchanged => exact absurd (transition_eq_unchanged_iff.mp h).2 (hcode _)
    | rejected => rfl
  speaks next message h := isSome_message_iff (row_of_transition h)
  polled := by
    rintro p c role rfl hrole
    exact (mem_processable_iff hrole).trans applied_iff.symm

end Negotiation

end ContractNegotiation
