import ContractNegotiation.Transition
import Mathlib.Tactic.Common

namespace ContractNegotiation

def State.speaks : State → Bool
  | requesting | accepting | verifying | offering | agreeing | finalizing | terminating => true
  | _ => false

namespace Negotiation

variable {n next v w : Negotiation} {event : Event} {now : Instant} {agreementId : String}
  {message : Option RemoteMessage}

/-- What an event makes of a record, and the message that goes with it: one constructor for each row
of the table. -/
inductive Row (n : Negotiation) (now : Instant) (agreementId : String) :
    Event → Negotiation → Option RemoteMessage → Prop where
  | request (p c : String) : n.role = some .consumer → n.state = .requesting →
      Row n now agreementId (.process p c) (n.enter .requested now) (some (n.requestMessage p c))
  | accept (p c : String) : n.role = some .consumer → n.state = .offered →
      Row n now agreementId (.process p c) (n.enter .accepting now) none
  | confirm (p c : String) : n.role = some .consumer → n.state = .accepting →
      Row n now agreementId (.process p c) (n.enter .accepted now) (some (n.requestMessage p c))
  | check (p c : String) : n.role = some .consumer → n.state = .agreed →
      Row n now agreementId (.process p c) (n.enter .verifying now) none
  | verify (p c : String) : n.role = some .consumer → n.state = .verifying →
      Row n now agreementId (.process p c) (n.enter .verified now)
        (some (.verification ⟨n.routing⟩))
  | draft (p c : String) : n.role = some .provider → n.state = .consumerRequested →
      Row n now agreementId (.process p c)
        { n.enter .agreeing now with agreement := some (n.draftAgreement p now agreementId) } none
  | offer (p c : String) : n.role = some .provider → n.state = .offering →
      Row n now agreementId (.process p c) (n.enter .offered now)
        (some (.offer ⟨n.routing, n.lastOffer?⟩))
  | agree (p c : String) (a : Agreement) : n.role = some .provider → n.state = .agreeing →
      a = n.agreement.getD (n.draftAgreement p now agreementId) →
      Row n now agreementId (.process p c) { n.enter .agreed now with agreement := some a }
        (some (n.agreementMessage a))
  | prepare (p c : String) : n.role = some .provider → n.state = .verified →
      Row n now agreementId (.process p c) (n.enter .finalizing now) none
  | finalize (p c : String) : n.role = some .provider → n.state = .finalizing →
      Row n now agreementId (.process p c) (n.enter .finalized now)
        (some (.event ⟨n.routing, .finalized⟩))
  | terminate (p c : String) : n.state = .terminating →
      Row n now agreementId (.process p c) (n.enter .terminated now)
        (some (.termination ⟨n.routing, n.errorDetail⟩))
  | requested (o : Offer) : n.role = some .provider → n.state = .offered →
      Row n now agreementId (.requestReceived o) ((n.enter .consumerRequested now).addOffer o) none
  | offered (o : Offer) : n.role = some .consumer → n.state ∈ [.requested, .accepted] →
      Row n now agreementId (.offerReceived o) ((n.enter .offered now).addOffer o) none
  | counter (o : Offer) : n.role = some .provider → n.state = .consumerRequested →
      Row n now agreementId (.counterOffer o) ((n.enter .offering now).addOffer o) none
  | agreed (a : Agreement) (p : Policy) : n.role = some .consumer →
      n.state ∈ [.requesting, .requested, .accepting, .accepted] →
      Row n now agreementId (.agreementReceived a p)
        { n.enter .agreed now with agreement := some { a with policy := some (a.policy.getD p) } }
        none
  | verified : n.role = some .provider → n.state = .agreed →
      Row n now agreementId .verificationReceived (n.enter .verified now) none
  | finalized : n.role = some .consumer → n.state ∈ [.verifying, .verified] →
      Row n now agreementId .finalizationReceived (n.enter .finalized now) none
  | terminated (reason : String) : n.state.isTerminal = false →
      Row n now agreementId (.terminationReceived reason)
        { n.enter .terminated now with errorDetail := reason } none
  | cancel : n.role = some .consumer → n.state.isBeforeAgreed = true →
      Row n now agreementId .cancel (n.enter .cancelled now) none
  | decline (reason : String) : n.state.isTerminal = false →
      Row n now agreementId (.decline reason)
        { n.enter .terminating now with errorDetail := reason } none
  | fail (cause : String) : n.state.isTerminal = false →
      Row n now agreementId (.fail cause) { n.enter .error now with errorDetail := cause } none

theorem row_of_transition (h : n.transition event now agreementId = .applied next message) :
    Row n now agreementId event next message := by
  cases event with
  | process p c =>
    simp only [transition, advance] at h
    split at h
    · rename_i hs
      cases h
      exact .terminate p c hs
    · split at h
      · rename_i hr
        simp only [advanceConsumer] at h
        split at h <;> cases h <;> rename_i hs
        · exact .request p c hr hs
        · exact .accept p c hr hs
        · exact .confirm p c hr hs
        · exact .check p c hr hs
        · exact .verify p c hr hs
      · rename_i hr
        simp only [advanceProvider] at h
        split at h <;> cases h <;> rename_i hs
        · exact .draft p c hr hs
        · exact .offer p c hr hs
        · exact .agree p c _ hr hs rfl
        · exact .prepare p c hr hs
        · exact .finalize p c hr hs
      · cases h
  | requestReceived o =>
    simp only [transition] at h
    split at h <;> cases h
    rename_i hn
    exact .requested o hn.1 hn.2
  | offerReceived o =>
    simp only [transition] at h
    split at h <;> cases h
    rename_i hn
    exact .offered o hn.1 hn.2
  | counterOffer o =>
    simp only [transition] at h
    split at h <;> cases h
    rename_i hn
    exact .counter o hn.1 hn.2
  | agreementReceived a p =>
    simp only [transition] at h
    split at h <;> cases h
    rename_i hn
    exact .agreed a p hn.1 hn.2
  | verificationReceived =>
    simp only [transition] at h
    split at h <;> cases h
    rename_i hn
    exact .verified hn.1 hn.2
  | finalizationReceived =>
    simp only [transition] at h
    split at h <;> cases h
    rename_i hn
    exact .finalized hn.1 hn.2
  | terminationReceived reason =>
    simp only [transition] at h
    split at h
    · cases h
    · split at h <;> cases h
      rename_i hn
      exact .terminated reason (by simpa using hn)
  | cancel =>
    simp only [transition] at h
    split at h <;> cases h
    rename_i hn
    exact .cancel hn.1 hn.2
  | decline reason =>
    simp only [transition] at h
    split at h <;> cases h
    rename_i hn
    exact .decline reason (by simpa using hn)
  | fail cause =>
    simp only [transition] at h
    split at h <;> cases h
    rename_i hn
    exact .fail cause (by simpa using hn)

theorem transition_unchanged (h : n.transition event now agreementId = .unchanged) :
    n.state = .terminated ∧ ∃ reason, event = .terminationReceived reason := by
  cases event with
  | process p c =>
    simp only [transition, advance] at h
    split at h
    · cases h
    · split at h
      · simp only [advanceConsumer] at h
        split at h <;> cases h
      · simp only [advanceProvider] at h
        split at h <;> cases h
      · cases h
  | terminationReceived reason =>
    simp only [transition] at h
    split at h
    · rename_i hs
      exact ⟨hs, reason, rfl⟩
    · split at h <;> cases h
  | _ => simp only [transition] at h; split at h <;> cases h

theorem next_fail (hs : n.state.isTerminal = false) (cause : String) :
    (n.transition (.fail cause) now agreementId).next n =
      { n.enter .error now with errorDetail := cause } := by
  simp [transition, hs, Outcome.next]

@[simp] theorem state_enter (n : Negotiation) (s : State) (now : Instant) :
    (n.enter s now).state = s := State.ofCode_code s

structure Continues (n next : Negotiation) : Prop where
  id : next.id = n.id
  correlationId : next.correlationId = n.correlationId
  role : next.role = n.role
  counterPartyId : next.counterPartyId = n.counterPartyId
  counterPartyAddress : next.counterPartyAddress = n.counterPartyAddress
  protocol : next.protocol = n.protocol
  stateCount : next.stateCount = n.stateCount
  createdAt : next.createdAt = n.createdAt
  offers : n.offers <+: next.offers

theorem Continues.refl (n : Negotiation) : n.Continues n :=
  ⟨rfl, rfl, rfl, rfl, rfl, rfl, rfl, rfl, List.prefix_refl _⟩

theorem Row.continues (h : Row n now agreementId event next message) : n.Continues next := by
  cases h <;> constructor <;> first | rfl | exact List.prefix_refl _ | exact List.prefix_append _ _

theorem Row.isTerminal (h : Row n now agreementId event next message) :
    n.state.isTerminal = false := by
  cases h with
  | offered _ _ hs | finalized _ hs =>
    simp only [List.mem_cons, List.not_mem_nil, or_false] at hs
    rcases hs with hs | hs <;> simp [hs, State.isTerminal]
  | agreed _ _ _ hs =>
    simp only [List.mem_cons, List.not_mem_nil, or_false] at hs
    rcases hs with hs | hs | hs | hs <;> simp [hs, State.isTerminal]
  | terminated _ h | decline _ h | fail _ h => exact h
  | cancel _ h =>
    simp only [State.isBeforeAgreed, Bool.and_eq_true, Bool.not_eq_true'] at h
    exact h.1
  | request _ _ _ hs | accept _ _ _ hs | confirm _ _ _ hs | check _ _ _ hs | verify _ _ _ hs
  | draft _ _ _ hs | offer _ _ _ hs | agree _ _ _ _ hs | prepare _ _ _ hs | finalize _ _ _ hs
  | terminate _ _ hs | requested _ _ hs | counter _ _ hs | verified _ hs =>
    simp [hs, State.isTerminal]

theorem Row.routing {m : RemoteMessage} (h : Row n now agreementId event next (some m)) :
    m.processId = n.id ∧ m.destination = n.counterPartyAddress := by
  cases h <;> exact ⟨rfl, rfl⟩

theorem Row.request_callback {request : RequestMessage} {participantId address : String}
    (h : Row n now agreementId (.process participantId address) next (some (.request request))) :
    request.processId = n.id ∧ request.callbackAddress = address := by
  cases h <;> exact ⟨rfl, rfl⟩

theorem Row.request_role {request : RequestMessage}
    (h : Row n now agreementId event next (some (.request request))) : n.role = some .consumer := by
  cases h with
  | request _ _ hr => exact hr
  | confirm _ _ hr => exact hr

theorem Row.isSome_message {p c : String}
    (h : Row n now agreementId (.process p c) next message) : message.isSome = n.state.speaks := by
  cases h with
  | request _ _ _ hs | accept _ _ _ hs | confirm _ _ _ hs | check _ _ _ hs | verify _ _ _ hs
  | draft _ _ _ hs | offer _ _ _ hs | agree _ _ _ _ hs | prepare _ _ _ hs | finalize _ _ _ hs
  | terminate _ _ hs => rw [hs]; rfl

theorem Row.state_ne_error (h : Row n now agreementId event next message)
    (he : ∀ cause, event ≠ .fail cause) : next.state ≠ .error := by
  cases h with
  | fail cause => exact absurd rfl (he cause)
  | _ => simp [state, enter, addOffer, State.ofCode_code]

theorem Row.silent (h : Row n now agreementId event next message)
    (he : ∀ p c, event ≠ .process p c) : message = none := by
  cases h <;> first | rfl | exact absurd rfl (he _ _)

theorem correlate_eq (n : Negotiation) (peer : String) :
    n.correlate peer =
      { n with correlationId := if n.correlationId = "" then peer else n.correlationId } := by
  unfold correlate
  split <;> rfl

theorem correlate_empty (n : Negotiation) : n.correlate "" = n := by
  unfold correlate
  split
  · rename_i h
    rw [← h]
  · rfl

def successor (v next : Negotiation) (peer : String) : Negotiation :=
  { next.correlate peer with stateCount := v.stateCount + 1 }

def Follows (v : Negotiation) (event : Event) (agreementId peer : String) (w : Negotiation) :
    Prop :=
  ∃ now next message, v.transition event now agreementId = .applied next message ∧
    w = v.successor next peer

variable {peer : String}

theorem successor_eq (v next : Negotiation) (peer : String) :
    v.successor next peer = { next with
      correlationId := if next.correlationId = "" then peer else next.correlationId
      stateCount := v.stateCount + 1 } := by
  rw [successor, correlate_eq]

@[simp] theorem state_successor (v next : Negotiation) (peer : String) :
    (v.successor next peer).state = next.state := by
  rw [successor_eq]
  rfl

theorem Follows.id (h : v.Follows event agreementId peer w) : w.id = v.id := by
  obtain ⟨now, next, message, ht, rfl⟩ := h
  simpa only [successor_eq] using (row_of_transition ht).continues.id

theorem Follows.stateCount (h : v.Follows event agreementId peer w) :
    w.stateCount = v.stateCount + 1 := by
  obtain ⟨now, next, message, ht, rfl⟩ := h
  rfl

end Negotiation

end ContractNegotiation
