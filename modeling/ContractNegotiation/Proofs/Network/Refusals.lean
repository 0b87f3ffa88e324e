import ContractNegotiation.Proofs.Network.Answer

namespace ContractNegotiation

open ContractNegotiation.Action Negotiation

def Refusal.Passing (r : Refusal) : Prop := Loopback.mayClearUp r.reason = true

/-- What every receiver checks before it looks for the record that is meant. -/
def RemoteMessage.Composed : RemoteMessage → Prop
  | .empty => False
  | .request m => m.processId ≠ "" ∧ m.offer ≠ none ∧ m.callbackAddress ≠ ""
  | .agreement m => (m.agreement.getD {}).id ≠ ""
  | .event m => m.type = .finalized
  | .offer _ | .verification _ | .termination _ => True

theorem Store.passing_of_save {s : Store} {n : Negotiation} {holder : String} {now : Instant}
    {error : StoreError} (hid : n.id ≠ "") (h : s.save n holder now = .error error) :
    (Refusal.store error).Passing := by
  unfold save at h
  rw [if_neg hid] at h
  split at h
  · split at h <;> cases h
    rfl
  · split at h
    · cases h
      rfl
    · split at h
      · cases h
        rfl
      · split at h <;> cases h
        rfl

theorem Negotiation.Row.composed {v next : Negotiation} {now : Instant} {agreementId : String}
    {participantId address : String} {message : RemoteMessage}
    (h : Row v now agreementId (.process participantId address) next (some message))
    (hv : v.WellFormed) (hid : v.id ≠ "") (haddress : address ≠ "") : message.Composed := by
  have hoffer : v.lastOffer? ≠ none := fun hnone => hv.offers (List.getLast?_eq_none_iff.mp hnone)
  cases h with
  | request => exact ⟨hid, hoffer, haddress⟩
  | confirm => exact ⟨hid, hoffer, haddress⟩
  | verify => trivial
  | offer => trivial
  | agree _ _ a _ hs ha =>
    obtain ⟨b, hb, hbid⟩ := hv.bound (by rw [hs]; decide)
    rw [hb, Option.getD_some] at ha
    rw [ha]
    exact hbid
  | finalize => rfl
  | terminate => trivial

namespace Site

variable {s : Site} {role : Role} {now : Instant} {v : Negotiation} {event : Event}
  {refusal : Refusal}

theorem passing_of_apply (hid : v.id ≠ "") (h : (s.apply role now v event).1 = .error refusal) :
    refusal.Passing := by
  unfold apply at h
  split at h
  · cases h
    rfl
  · cases h
  · rename_i next message ht
    rw [← (row_of_transition ht).continues.id] at hid
    split at h
    · rename_i hsave
      cases h
      exact Store.passing_of_save hid hsave
    · cases h

theorem passing_of_insert (hid : v.id ≠ "") (h : (s.insert role now v).1 = .error refusal) :
    refusal.Passing := by
  unfold insert at h
  split at h
  · rename_i hsave
    cases h
    exact Store.passing_of_save (by exact hid) hsave
  · cases h

end Site

namespace Network

variable {n : Nat} {roster : Roster n} {ids : Nat → String} {i j : Fin n} {net : Network n}
  {m : Manager} {event : Event}

def Labelled (net : Network n) (i : Fin n) : Prop :=
  ∀ v ∈ (net.site i).store.records, v.id ≠ "" ∧ v.role ≠ none

theorem apply_passing {v : Negotiation} (hd : v.drawsId event = false) (hid : v.id ≠ "") :
    Yields (m.apply (environment ids i) v event) net fun r _ =>
      ∀ refusal, r = .error refusal → refusal.Passing := by
  apply (apply_yields m hd).mono
  rintro r _ ⟨rfl, -⟩ refusal
  exact Site.passing_of_apply hid

theorem insert_passing {v : Negotiation} (hid : v.id ≠ "") :
    Yields (m.insert (environment ids i) v) net fun r _ =>
      ∀ refusal, r = .error refusal → refusal.Passing := by
  apply (insert_yields m v).mono
  rintro r _ ⟨rfl, -⟩ refusal
  exact Site.passing_of_insert hid

section Receiving

variable (hlabelled : Labelled net i)
include hlabelled

theorem applyCorrelated_passing (c : String) (hd : ∀ v : Negotiation, v.drawsId event = false) :
    Yields (m.applyCorrelated (environment ids i) c event) net fun r _ =>
      ∀ refusal, r = .error refusal → refusal.Passing := by
  apply (findCorrelated_yields m c).bind
  rintro found t ⟨hf, rfl⟩
  cases found with
  | none =>
    apply yields_pure.mpr
    rintro _ ⟨⟩
    rfl
  | some v =>
    have hv := (m.own_eq_some.mp hf.symm).1
    exact apply_passing (hd v) (hlabelled v (Store.correlationId_of_findByCorrelation? hv).1).1

theorem requested_passing (hids : ∀ k, ids k ≠ "") {token : ClaimToken} {message : RequestMessage}
    (htoken : token.clientId ≠ "") (hm : (RemoteMessage.request message).Composed) :
    Yields (m.requested (environment ids i) token message) net fun r _ =>
      ∀ refusal, r = .error refusal → refusal.Passing := by
  obtain ⟨hid, hoffer, hcallback⟩ := hm
  obtain ⟨offer, ho⟩ := Option.ne_none_iff_exists'.mp hoffer
  unfold Manager.requested
  simp only [if_neg hid, ho]
  apply (findCorrelated_yields m message.processId).bind
  rintro found t ⟨hf, rfl⟩
  cases found with
  | some v =>
    have hv := (m.own_eq_some.mp hf.symm).1
    dsimp only
    split
    · apply yields_pure.mpr
      rintro _ ⟨⟩
    · exact apply_passing rfl (hlabelled v (Store.correlationId_of_findByCorrelation? hv).1).1
  | none =>
    simp only [ne_eq, htoken, not_false_eq_true, if_true, if_neg, hcallback]
    apply freshId_yields.bind
    rintro id u ⟨rfl, -⟩
    exact insert_passing (hids _)

theorem receive_passing (hids : ∀ k, ids k ≠ "") {c : Connector} {token : ClaimToken}
    {message : RemoteMessage} (htoken : token.clientId ≠ "") (hm : message.Composed) :
    Yields (Service.receive c (environment ids i) message token) net fun r _ =>
      ∃ outcome, r = some outcome ∧ ∀ refusal, outcome = .error refusal → refusal.Passing := by
  have called (route : Route) (id : String)
      {block : Action (Network n) (Except Refusal Negotiation)}
      (hb : Yields block net fun r _ => ∀ refusal, r = .error refusal → refusal.Passing) :
      Yields (some <$> Service.call (environment ids i) route id block) net fun r _ =>
        ∃ outcome, r = some outcome ∧
          ∀ refusal, outcome = .error refusal → refusal.Passing := by
    apply ((call_yields route id hb).map some).mono
    rintro _ _ ⟨r, rfl, hr⟩
    exact ⟨r, rfl, hr⟩
  cases message with
  | empty => exact hm.elim
  | request m => exact called _ _ (requested_passing hlabelled hids htoken hm)
  | offer m => exact called _ _ (applyCorrelated_passing hlabelled _ fun _ => rfl)
  | agreement m =>
    apply called
    rw [Manager.agreed, if_neg hm]
    exact applyCorrelated_passing hlabelled _ fun _ => rfl
  | verification m => exact called _ _ (applyCorrelated_passing hlabelled _ fun _ => rfl)
  | event m =>
    have htype : m.type = .finalized := hm
    rw [Service.receive, if_pos htype]
    exact called _ _ (applyCorrelated_passing hlabelled _ fun _ => rfl)
  | termination m =>
    apply called
    have hfind : Yields ((environment ids i).findByCorrelation m.processId) net fun found t =>
        found = (net.site i).store.findByCorrelation? m.processId ∧ t = net := ⟨_, _, rfl, rfl, rfl⟩
    apply hfind.bind
    rintro found t ⟨hf, rfl⟩
    cases found with
    | none =>
      apply yields_pure.mpr
      rintro _ ⟨⟩
      rfl
    | some v =>
      have hv := (Store.correlationId_of_findByCorrelation? hf.symm).1
      obtain ⟨role, hr⟩ := Option.ne_none_iff_exists'.mp (hlabelled v hv).2
      simp only [hr]
      exact applyCorrelated_passing hlabelled _ fun _ => rfl

end Receiving

theorem send_passing (hids : ∀ k, roster.ids k ≠ "") (hlabelled : ∀ k, Labelled net k)
    (hidentity : (roster.connector i).participantId ≠ "") {message : RemoteMessage}
    (hm : message.Composed) :
    Yields (send roster i message) net fun answer _ => ∀ text, answer ≠ .fatal text := by
  cases hget : net.addresses.get? message.destination with
  | none =>
    apply (send_unreachable hget).mono
    rintro _ t ⟨rfl, rfl⟩ text h
    cases h
  | some j =>
    have htoken : (Loopback.senderToken (roster.connector i).participantId).clientId ≠ "" := by
      rwa [clientId_senderToken]
    apply (send_yields hget (receive_passing (hlabelled j) hids htoken hm)).mono
    rintro _ _ ⟨_, rfl, outcome, rfl, hpassing⟩ text
    cases outcome with
    | ok w => exact fun h => by cases h
    | error refusal =>
      have hclears : Loopback.mayClearUp refusal.reason = true := hpassing refusal rfl
      simp [Loopback.answer, hclears]

end Network

end ContractNegotiation
