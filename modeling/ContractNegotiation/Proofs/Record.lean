import ContractNegotiation.Proofs.Store.Evolution

namespace ContractNegotiation

def Role.branch : Role → List State
  | .consumer => [.requesting, .requested, .offered, .accepting, .accepted, .agreed, .verifying,
      .verified, .finalized, .terminating, .terminated, .cancelled, .error]
  | .provider => [.consumerRequested, .offering, .offered, .agreeing, .agreed, .verified,
      .finalizing, .finalized, .terminating, .terminated, .error]

namespace State

def unbound : List State :=
  [requesting, requested, consumerRequested, offering, offered, accepting, accepted, cancelled]

def bound : List State := [agreeing, agreed, verifying, verified, finalizing, finalized]

def negotiating : List State :=
  [requesting, requested, consumerRequested, offering, offered, accepting, accepted]

def answered : List State := [offered, accepting, accepted, agreed, verifying, verified, finalized]

end State

namespace Negotiation

variable {v w next x : Negotiation} {event : Event} {now : Instant} {agreementId peer : String}
  {message : Option RemoteMessage}

structure WellFormed (n : Negotiation) : Prop where
  branch : ∃ role, n.role = some role ∧ n.state ∈ role.branch
  stateCode : n.stateCode = n.state.code
  offers : n.offers ≠ []
  unbound : n.state ∈ State.unbound → n.agreement = none
  bound : n.state ∈ State.bound → ∃ a, n.agreement = some a ∧ a.id ≠ ""
  correlated : n.role = some .provider ∨ n.state ∈ State.answered → n.correlationId ≠ ""

theorem state_eq {s : State} (h : v.stateCode = s.code) : v.state = s := by
  rw [state, h, State.ofCode_code]

theorem Continues.offers_ne_nil (hc : v.Continues next) (hv : v.offers ≠ []) : next.offers ≠ [] :=
  fun h => hv (List.prefix_nil.mp (h ▸ hc.offers))

section Steps

variable {role : Role} {s : State} (s' : State) (hv : v.WellFormed) (hc : v.Continues next)
include hv hc

theorem WellFormed.step (hr : v.role = some role) (hs : v.state = s)
    (hs' : next.stateCode = s'.code) (hkept : next.agreement = v.agreement)
    (hmove : s' ∈ role.branch ∧ (s' ∈ State.unbound → s ∈ State.unbound) ∧
      (s' ∈ State.bound → s ∈ State.bound))
    (hco : role = .consumer → s' ∈ State.answered → s ∈ State.answered ∨ v.correlationId ≠ "") :
    next.WellFormed := by
  have hstate := state_eq hs'
  obtain ⟨hb, hun, hbo⟩ := hmove
  constructor
  · exact ⟨role, hc.role.trans hr, hstate ▸ hb⟩
  · rw [hstate, hs']
  · exact hc.offers_ne_nil hv.offers
  · intro h
    rw [hkept]
    exact hv.unbound (hs ▸ hun (hstate ▸ h))
  · intro h
    rw [hkept]
    exact hv.bound (hs ▸ hbo (hstate ▸ h))
  · rw [hc.role, hr, hstate, hc.correlationId]
    intro h
    cases role with
    | provider => exact hv.correlated (.inl hr)
    | consumer =>
      rcases hco rfl (h.resolve_left (by simp)) with h | h
      · exact hv.correlated (.inr (hs ▸ h))
      · exact h

theorem WellFormed.bind (hr : v.role = some role) (hs' : next.stateCode = s'.code)
    {a : Agreement} (ha : next.agreement = some a) (hid : a.id ≠ "")
    (hmove : s' ∈ role.branch ∧ s' ∉ State.unbound) (hco : v.correlationId ≠ "") :
    next.WellFormed := by
  have hstate := state_eq hs'
  constructor
  · exact ⟨role, hc.role.trans hr, hstate ▸ hmove.1⟩
  · rw [hstate, hs']
  · exact hc.offers_ne_nil hv.offers
  · exact fun h => absurd (hstate ▸ h) hmove.2
  · exact fun _ => ⟨a, ha, hid⟩
  · exact fun _ => hc.correlationId ▸ hco

theorem WellFormed.halt (hs' : next.stateCode = s'.code)
    (hs : s' ∈ [State.terminating, .terminated, .error]) : next.WellFormed := by
  obtain ⟨role, hr, -⟩ := hv.branch
  have hstate := state_eq hs'
  have hout : s' ∈ role.branch ∧ s' ∉ State.unbound ∧ s' ∉ State.bound ∧ s' ∉ State.answered := by
    revert hs
    cases role <;> cases s' <;> decide
  constructor
  · exact ⟨role, hc.role.trans hr, hstate ▸ hout.1⟩
  · rw [hstate, hs']
  · exact hc.offers_ne_nil hv.offers
  · exact fun h => absurd (hstate ▸ h) hout.2.1
  · exact fun h => absurd (hstate ▸ h) hout.2.2.1
  · rw [hc.role, hc.correlationId, hstate]
    rintro (h | h)
    · exact hv.correlated (.inl h)
    · exact absurd h hout.2.2.2

end Steps

theorem id_draftAgreement (n : Negotiation) (participantId id : String) (now : Instant) :
    (n.draftAgreement participantId now id).id = id := by
  unfold draftAgreement
  split <;> rfl

theorem WellFormed.mem_unbound (hv : v.WellFormed) (hr : v.role = some .consumer)
    (hs : v.state.isBeforeAgreed = true) : v.state ∈ State.unbound := by
  obtain ⟨role, hrole, hb⟩ := hv.branch
  obtain rfl : role = .consumer := Option.some.inj (hrole.symm.trans hr)
  revert hb hs
  cases v.state <;> decide

theorem Row.wellFormed (h : Row v now agreementId event next message) (hv : v.WellFormed)
    (he : event.Admissible v) (hid : v.drawsId event = true → agreementId ≠ "") :
    next.WellFormed := by
  have hc := h.continues
  have quiet {role : Role} {s s' : State} (h : role = .provider ∨ s' ∉ State.answered ∨
      s ∈ State.answered) (hr : role = .consumer) (hs : s' ∈ State.answered) :
      s ∈ State.answered ∨ v.correlationId ≠ "" := by
    subst hr
    exact .inl ((h.resolve_left (by simp)).resolve_left fun h => h hs)
  cases h with
  | request p c hr hs =>
    exact hv.step .requested hc hr hs rfl rfl (by decide) (quiet (by decide))
  | accept p c hr hs =>
    exact hv.step .accepting hc hr hs rfl rfl (by decide) (quiet (by decide))
  | confirm p c hr hs =>
    exact hv.step .accepted hc hr hs rfl rfl (by decide) (quiet (by decide))
  | check p c hr hs =>
    exact hv.step .verifying hc hr hs rfl rfl (by decide) (quiet (by decide))
  | verify p c hr hs =>
    exact hv.step .verified hc hr hs rfl rfl (by decide) (quiet (by decide))
  | draft p c hr hs =>
    have hid := hid (by simp [drawsId, needsDraft, hr, hs])
    refine hv.bind .agreeing hc hr rfl rfl ?_ (by decide) (hv.correlated (.inl hr))
    rwa [id_draftAgreement]
  | offer p c hr hs =>
    exact hv.step .offered hc hr hs rfl rfl (by decide) (quiet (by decide))
  | agree p c a hr hs ha =>
    obtain ⟨b, hb, hid⟩ := hv.bound (by rw [hs]; decide)
    obtain rfl : a = b := by rw [ha, hb, Option.getD_some]
    exact hv.bind .agreed hc hr rfl rfl hid (by decide) (hv.correlated (.inl hr))
  | prepare p c hr hs =>
    exact hv.step .finalizing hc hr hs rfl rfl (by decide) (quiet (by decide))
  | finalize p c hr hs =>
    exact hv.step .finalized hc hr hs rfl rfl (by decide) (quiet (by decide))
  | terminate p c hs => exact hv.halt .terminated hc rfl (by decide)
  | requested o hr hs =>
    exact hv.step .consumerRequested hc hr hs rfl rfl (by decide) (quiet (by decide))
  | offered o hr hs =>
    simp only [List.mem_cons, List.not_mem_nil, or_false] at hs
    rcases hs with hs | hs
    · exact hv.step .offered hc hr hs rfl rfl (by decide) fun _ _ => .inr he
    · exact hv.step .offered hc hr hs rfl rfl (by decide) fun _ _ => .inr he
  | counter o hr hs =>
    exact hv.step .offering hc hr hs rfl rfl (by decide) (quiet (by decide))
  | agreed a p hr hs => exact hv.bind .agreed hc hr rfl rfl he.2 (by decide) he.1
  | verified hr hs =>
    exact hv.step .verified hc hr hs rfl rfl (by decide) (quiet (by decide))
  | finalized hr hs =>
    simp only [List.mem_cons, List.not_mem_nil, or_false] at hs
    rcases hs with hs | hs
    · exact hv.step .finalized hc hr hs rfl rfl (by decide) (quiet (by decide))
    · exact hv.step .finalized hc hr hs rfl rfl (by decide) (quiet (by decide))
  | terminated reason hs => exact hv.halt .terminated hc rfl (by decide)
  | cancel hr hs =>
    refine hv.step .cancelled hc hr rfl rfl rfl ⟨by decide, fun _ => hv.mem_unbound hr hs, ?_⟩ ?_
    · exact fun h => absurd h (by decide)
    · exact fun _ h => absurd h (by decide)
  | decline reason hs => exact hv.halt .terminating hc rfl (by decide)
  | fail cause hs => exact hv.halt .error hc rfl (by decide)

theorem WellFormed.successor (hnext : next.WellFormed) (v : Negotiation) (peer : String) :
    (v.successor next peer).WellFormed := by
  rw [successor_eq]
  refine ⟨hnext.branch, hnext.stateCode, hnext.offers, hnext.unbound, hnext.bound, fun h => ?_⟩
  have hid := hnext.correlated h
  dsimp only
  rwa [if_neg hid]

theorem Follows.wellFormed (h : v.Follows event agreementId peer w) (hv : v.WellFormed)
    (he : event.Admissible v) (hid : v.drawsId event = true → agreementId ≠ "") :
    w.WellFormed := by
  obtain ⟨now, next, message, ht, rfl⟩ := h
  exact ((row_of_transition ht).wellFormed hv he hid).successor v peer

theorem First.wellFormed (h : w.First) : w.WellFormed := by
  rcases h with ⟨address, offer, h⟩ | ⟨peer, address, offer, hpeer, h⟩
  · have hs := state_eq h.stateCode
    constructor
    · exact ⟨.consumer, h.role, by rw [hs]; decide⟩
    · rw [hs, h.stateCode]
    · simp [h.offers]
    · exact fun _ => h.agreement
    · exact fun hb => absurd (hs ▸ hb) (by decide)
    · rw [h.role, hs]
      exact fun hr => absurd hr (by decide)
  · have hs := state_eq h.stateCode
    constructor
    · exact ⟨.provider, h.role, by rw [hs]; decide⟩
    · rw [hs, h.stateCode]
    · simp [h.offers]
    · exact fun _ => h.agreement
    · exact fun hb => absurd (hs ▸ hb) (by decide)
    · exact fun _ => h.correlationId ▸ hpeer

def Open (n : Negotiation) : Prop := n.state ∈ State.negotiating → n.agreement = none

theorem Row.isOpen (h : Row v now agreementId event next message) (hv : v.Open) : next.Open := by
  have stays {s : State} (hs : v.state = s) (hkept : next.agreement = v.agreement)
      (hmove : s ∈ State.negotiating) : next.Open := by
    intro _
    rw [hkept]
    exact hv (hs ▸ hmove)
  have leaves (s' : State) (hs' : next.stateCode = s'.code) (hmove : s' ∉ State.negotiating) :
      next.Open := fun hn => absurd (state_eq hs' ▸ hn) hmove
  cases h with
  | request _ _ _ hs | accept _ _ _ hs | confirm _ _ _ hs | offer _ _ _ hs | requested _ _ hs
  | counter _ _ hs => exact stays hs rfl (by decide)
  | offered _ _ hs =>
    simp only [List.mem_cons, List.not_mem_nil, or_false] at hs
    rcases hs with hs | hs <;> exact stays hs rfl (by decide)
  | check => exact leaves .verifying rfl (by decide)
  | draft => exact leaves .agreeing rfl (by decide)
  | agree | agreed => exact leaves .agreed rfl (by decide)
  | verify | verified => exact leaves .verified rfl (by decide)
  | prepare => exact leaves .finalizing rfl (by decide)
  | finalize | finalized => exact leaves .finalized rfl (by decide)
  | terminate | terminated => exact leaves .terminated rfl (by decide)
  | cancel => exact leaves .cancelled rfl (by decide)
  | decline => exact leaves .terminating rfl (by decide)
  | fail => exact leaves .error rfl (by decide)

theorem Row.agreement (h : Row v now agreementId event next message) (hv : v.Open)
    {a : Agreement} (ha : v.agreement = some a) : next.agreement = some a := by
  have fresh (hs : v.state ∈ State.negotiating) : next.agreement = some a := by
    rw [hv hs] at ha
    cases ha
  cases h with
  | draft _ _ _ hs => exact fresh (by rw [hs]; decide)
  | agreed _ _ _ hs =>
    simp only [List.mem_cons, List.not_mem_nil, or_false] at hs
    rcases hs with hs | hs | hs | hs <;> exact fresh (by rw [hs]; decide)
  | agree _ _ b _ _ hb => simp [hb, ha]
  | _ => exact ha

structure Grows (v w : Negotiation) : Prop where
  id : w.id = v.id
  role : w.role = v.role
  counterPartyId : w.counterPartyId = v.counterPartyId
  counterPartyAddress : w.counterPartyAddress = v.counterPartyAddress
  protocol : w.protocol = v.protocol
  createdAt : w.createdAt = v.createdAt
  correlationId : v.correlationId ≠ "" → w.correlationId = v.correlationId
  offers : v.offers <+: w.offers
  agreement : ∀ a, v.agreement = some a → w.agreement = some a
  version : v.version ≤ w.version
  same : w.stateCount = v.stateCount → w = v
  terminal : v.state.isTerminal = true → w = v

theorem Grows.refl (v : Negotiation) : v.Grows v := by
  constructor <;> simp

theorem Grows.trans (h : v.Grows w) (h' : w.Grows x) : v.Grows x where
  id := h'.id.trans h.id
  role := h'.role.trans h.role
  counterPartyId := h'.counterPartyId.trans h.counterPartyId
  counterPartyAddress := h'.counterPartyAddress.trans h.counterPartyAddress
  protocol := h'.protocol.trans h.protocol
  createdAt := h'.createdAt.trans h.createdAt
  correlationId hid := by
    have hw := h.correlationId hid
    rw [h'.correlationId (hw ▸ hid), hw]
  offers := h.offers.trans h'.offers
  agreement a ha := h'.agreement a (h.agreement a ha)
  version := Nat.le_trans h.version h'.version
  same hx := by
    have hle := h'.version
    rw [show x.version = v.version from congrArg (fun c => (c - 1).toNat) hx] at hle
    have hw : w = v := h.same (stateCount_eq_of_version (Nat.le_antisymm hle h.version))
    subst hw
    exact h'.same hx
  terminal hv := by
    have hw := h.terminal hv
    subst hw
    exact h'.terminal hv

theorem Grows.stateCount_le (h : v.Grows w) (hw : w.stateCount ≠ 0) :
    v.stateCount ≤ w.stateCount := by
  by_cases hv : v.stateCount = 0
  · rw [hv]
    exact UInt64.zero_le
  · rw [UInt64.le_iff_toNat_le, toNat_stateCount hv, toNat_stateCount hw]
    exact Nat.succ_le_succ h.version

theorem Follows.grows (h : v.Follows event agreementId peer w) (hc : v.stateCount ≠ 0)
    (hv : v.Open) : v.Grows w := by
  have hversion := version_succ hc h.stateCount
  obtain ⟨now, next, message, ht, rfl⟩ := h
  have hrow := row_of_transition ht
  have hcont := hrow.continues
  simp only [successor_eq] at hversion ⊢
  constructor
  · exact hcont.id
  · exact hcont.role
  · exact hcont.counterPartyId
  · exact hcont.counterPartyAddress
  · exact hcont.protocol
  · exact hcont.createdAt
  · intro hid
    dsimp only
    rw [hcont.correlationId, if_neg hid]
  · exact hcont.offers
  · exact fun a ha => hrow.agreement hv ha
  · omega
  · intro hs
    rw [show version _ = v.version from congrArg (fun c => (c - 1).toNat) hs] at hversion
    omega
  · intro hterm
    rw [hrow.isTerminal] at hterm
    cases hterm

theorem Follows.isOpen (h : v.Follows event agreementId peer w) (hv : v.Open) : w.Open := by
  obtain ⟨now, next, message, ht, rfl⟩ := h
  rw [successor_eq]
  exact (row_of_transition ht).isOpen hv

theorem First.isOpen (h : w.First) : w.Open := by
  rcases h with ⟨_, _, h⟩ | ⟨_, _, _, _, h⟩ <;> exact fun _ => h.agreement

end Negotiation

namespace Store

variable {s t : Store} {n v w : Negotiation}

theorem mem_replace (h : n ∈ (s.replace w).records) : n = w ∨ n ∈ s.records := by
  obtain ⟨m, hm, rfl⟩ := List.mem_map.mp h
  split
  · exact .inl rfl
  · exact .inr hm

theorem Evolves.forall {P : Negotiation → Prop} (hfirst : ∀ w, w.First → P w)
    (hnext : ∀ v event agreementId peer w, v.Follows event agreementId peer w →
      event.Admissible v → (v.drawsId event = true → agreementId ≠ "") → P v → P w)
    (h : s.Evolves t) (hs : ∀ n ∈ s.records, P n) : ∀ n ∈ t.records, P n := by
  induction h with
  | refl => exact hs
  | tail _ h ih =>
    intro n hn
    cases h with
    | leases h => exact ih n (h ▸ hn)
    | opened w h hw =>
      rw [h.store] at hn
      rcases List.mem_cons.mp hn with rfl | hn
      · exact hfirst _ hw
      · exact ih n hn
    | moved v w event agreementId peer h he hid =>
      rw [h.store] at hn
      rcases mem_replace hn with rfl | hn
      · exact hnext v event agreementId peer _ h.follows he hid (ih v (mem_of_find? h.stored))
      · exact ih n hn

theorem Evolves.wellFormed (h : s.Evolves t) (hs : ∀ n ∈ s.records, n.WellFormed) :
    ∀ n ∈ t.records, n.WellFormed :=
  h.forall (fun _ hw => hw.wellFormed) (fun _ _ _ _ _ hf he hid hv => hf.wellFormed hv he hid) hs

theorem Evolves.isOpen (h : s.Evolves t) (hs : ∀ n ∈ s.records, n.Open) :
    ∀ n ∈ t.records, n.Open :=
  h.forall (fun _ hw => hw.isOpen) (fun _ _ _ _ _ hf _ _ hv => hf.isOpen hv) hs

theorem Write.grows (h : Write s t) (hs : ∀ n ∈ s.records, n.Open) {id : String}
    (hv : s.find? id = some v) : ∃ w, t.find? id = some w ∧ v.Grows w := by
  cases h with
  | leases h => exact ⟨v, by simpa only [find?, h] using hv, .refl v⟩
  | opened w h _ =>
    have hne : id ≠ w.id := fun he => by
      rw [he, h.fresh] at hv
      cases hv
    exact ⟨v, by rw [h.find?, if_neg hne, hv], .refl v⟩
  | moved v' w event agreementId peer h _ _ =>
    by_cases he : id = w.id
    · have hvv : v' = v := by
        rw [he, h.follows.id, h.stored] at hv
        exact Option.some.inj hv
      subst hvv
      refine ⟨w, by rw [h.find?, if_pos he], h.follows.grows h.counted ?_⟩
      exact hs _ (mem_of_find? hv)
    · exact ⟨v, by rw [h.find?, if_neg he, hv], .refl v⟩

theorem Evolves.grows (h : s.Evolves t) (hs : ∀ n ∈ s.records, n.Open) {id : String}
    (hv : s.find? id = some v) : ∃ w, t.find? id = some w ∧ v.Grows w := by
  induction h with
  | refl => exact ⟨v, hv, .refl v⟩
  | tail hm h ih =>
    obtain ⟨w, hw, hg⟩ := ih
    obtain ⟨x, hx, hg'⟩ := h.grows (Evolves.isOpen hm hs) hw
    exact ⟨x, hx, hg.trans hg'⟩

end Store

end ContractNegotiation
