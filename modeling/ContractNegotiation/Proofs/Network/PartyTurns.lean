import ContractNegotiation.Proofs.Network.TwoParties
import Mathlib.Algebra.Group.Nat.Defs

namespace ContractNegotiation

open ContractNegotiation.Action Negotiation

structure Progress where
  state : State
  count : Nat
  offers : List Offer
  agreement : Option Agreement := none

structure Negotiation.Reached (v : Negotiation) (x : Progress) : Prop where
  stateCode : v.stateCode = x.state.code
  counted : v.stateCount ≠ 0
  count : v.stateCount.toNat = x.count
  offers : v.offers = x.offers
  agreement : v.agreement = x.agreement

structure Agreement.HasTermsOf (a : Agreement) (o : Offer) : Prop where
  assetId : a.assetId = o.assetId
  policy : a.policy = some (o.policy.getD {})
  startDate : a.startDate = o.contractStart
  endDate : a.endDate = o.contractEnd

theorem Agreement.HasTermsOf.getD {a : Agreement} {o : Offer} (h : a.HasTermsOf o)
    (policy : Policy) :
    { a with policy := some (a.policy.getD policy) } = a := by
  rw [h.policy, Option.getD_some, ← h.policy]

section Reached

variable {v next : Negotiation} {x : Progress} {peer : String} {state : State}

theorem Negotiation.Reached.successor (h : v.Reached x) (hcount : x.count + 1 < 2 ^ 64)
    {offers : List Offer} {agreement : Option Agreement} (hs : next.stateCode = state.code)
    (ho : next.offers = offers) (ha : next.agreement = agreement) :
    (v.successor next peer).Reached ⟨state, x.count + 1, offers, agreement⟩ := by
  have hnat : (v.stateCount + 1).toNat = x.count + 1 := by
    rw [UInt64.toNat_add, h.count]
    exact Nat.mod_eq_of_lt hcount
  rw [successor_eq]
  refine ⟨hs, fun hzero => ?_, hnat, ho, ha⟩
  have hzero : (v.stateCount + 1).toNat = 0 := congrArg UInt64.toNat hzero
  omega

theorem Negotiation.Reached.enter (h : v.Reached x) (hcount : x.count + 1 < 2 ^ 64)
    (now : Instant) :
    (v.successor (v.enter state now) peer).Reached
      { x with state, count := x.count + 1 } :=
  h.successor hcount rfl h.offers h.agreement

theorem Negotiation.Reached.addOffer (h : v.Reached x) (hcount : x.count + 1 < 2 ^ 64)
    (now : Instant) (o : Offer) :
    (v.successor ((v.enter state now).addOffer o) peer).Reached
      { x with state, count := x.count + 1, offers := x.offers ++ [o] } :=
  h.successor hcount rfl (congrArg (· ++ [o]) h.offers) h.agreement

theorem Negotiation.opening_reached {n : Negotiation} {role : Role} {now : Instant}
    {offers : List Offer} {agreement : Option Agreement} (hs : n.stateCode = state.code)
    (ho : n.offers = offers) (ha : n.agreement = agreement) :
    (n.opening role now).Reached ⟨state, 1, offers, agreement⟩ :=
  ⟨hs, by simp [opening], rfl, ho, ha⟩

theorem Negotiation.Reached.state_eq (h : v.Reached x) : v.state = x.state :=
  Negotiation.state_eq h.stateCode

end Reached

namespace Network

variable {n : Nat} {roster : Roster n} {net net' : Network n} {a b c p : Party n} {x y : Progress}
  {state : State} {states : List State}

def BothReached (a b : Party n) (x y : Progress) (net : Network n) : Prop :=
  ∃ v w, BothHold a b v w net ∧ v.Reached x ∧ w.Reached y

theorem BothReached.symm (h : BothReached a b x y net) : BothReached b a y x net := by
  obtain ⟨v, w, hhold, hv, hw⟩ := h
  exact ⟨w, v, hhold.symm, hw, hv⟩

theorem BothReached.keeps (h : BothReached a b x y net) {k : Fin n}
    (ha : Alters k (net.site k) net net') :
    BothReached a b x y net' := by
  obtain ⟨v, w, hhold, hreached⟩ := h
  exact ⟨v, w, hhold.keeps (sites_of_keeps ha) (addresses_of_confined ha.toConfined), hreached⟩

theorem BothReached.later (h : BothReached a b x y net) (now : Instant) :
    BothReached a b x y { net with now } := by
  obtain ⟨v, w, hhold, hreached⟩ := h
  exact ⟨v, w, hhold.keeps (fun _ => rfl) rfl, hreached⟩

theorem BothReached.passes (h : BothReached a b x y net) (hstates : x.state ∉ states) :
    Yields (total ((a.manager roster).processState (environment roster.ids a.site)
      (send roster a.site)) states) net fun _ net' => BothReached a b x y net' := by
  obtain ⟨v, w, hhold, hv, hw⟩ := id h
  apply (passes_idle hhold.own.idle fun v' hv' _ state hstate hcode => ?_).mono
  · intro _ t ht
    exact h.keeps ht
  · rw [List.mem_singleton.mp hv', hv.stateCode] at hcode
    have hsame := congrArg State.ofCode hcode
    rw [State.ofCode_code, State.ofCode_code] at hsame
    exact hstates (hsame ▸ hstate)

theorem BothReached.round {Q : Network n → Prop} (hroster : roster.Equips a.site)
    (h : BothReached a b x y net)
    (hstates : ∀ t, BothReached a b x y t → Yields (total ((a.manager roster).processState
      (environment roster.ids a.site) (send roster a.site)) (State.processable a.role)) t
        fun _ u => Q u) :
    Yields (runOnce roster a.site a.role) net fun _ u => Q u := by
  obtain ⟨v, w, hhold, -⟩ := id h
  apply (drainCommands_idle hhold.own.idle (a.manager roster)).bind
  intro _ t ht
  have hrole : ((roster.connector a.site).manager a.role).role = a.role :=
    hroster.typed.manager a.role
  rw [hrole]
  apply (hstates t (h.keeps ht)).bind
  intro _ u hu
  exact yields_pure.mpr hu

theorem BothReached.rests (hroster : roster.Equips a.site) (h : BothReached a b x y net)
    (hstate : x.state ∉ State.processable a.role) :
    Yields (runOnce roster a.site a.role) net fun _ u => BothReached a b x y u :=
  h.round hroster fun _ ht => ht.passes hstate

structure Parties (roster : Roster n) (c p : Party n) : Prop where
  consumer : c.role = .consumer
  provider : p.role = .provider
  equips : roster.Equips c.site
  equips' : roster.Equips p.site
  ids : ∀ k, roster.ids k ≠ ""

theorem BothReached.enters {state' : State} (hroster : roster.Equips a.site)
    (h : BothReached a b x y net)
    (hstate : x.state = state) (hcount : x.count + 1 < 2 ^ 64)
    (ht : ∀ (v : Negotiation) now id, v.role = some a.role → v.state = state →
      v.transition (a.manager roster).turn now id = .applied (v.enter state' now) none) :
    Yields ((a.manager roster).processState (environment roster.ids a.site) (send roster a.site)
      state) net fun _ net' =>
        BothReached a b { x with state := state', count := x.count + 1 } y net' := by
  obtain ⟨v, w, hhold, hv, hw⟩ := h
  have hvs : v.state = state := hv.state_eq.trans hstate
  have hcode : v.stateCode = state.code := hstate ▸ hv.stateCode
  apply (hhold.silent hroster hcode hv.counted (ht v _ _ hhold.own.role hvs)).mono
  intro _ t hhold'
  exact ⟨_, _, hhold', hv.enter hcount _, hw⟩

theorem BothReached.tells {x' y' : Progress} (hroster : roster.Equips a.site)
    (hpeer : (roster.connector b.site).Typed) (h : BothReached a b x y net)
    (hstate : x.state = state)
    (ht : ∀ v w : Negotiation, v.role = some a.role → w.role = some b.role → v.Reached x →
      w.Reached y → ∃ next message event next',
        (∀ id, v.transition (a.manager roster).turn net.now id = .applied next (some message)) ∧
        message.Means b.role event ∧ (∀ m, message = .event m → m.type = .finalized) ∧
        w.transition event net.now "" = .applied next' none ∧
        (v.successor next w.id).Reached x' ∧ (w.successor next' "").Reached y') :
    Yields ((a.manager roster).processState (environment roster.ids a.site) (send roster a.site)
      state) net fun _ net' => BothReached a b x' y' net' := by
  obtain ⟨v, w, hhold, hv, hw⟩ := h
  obtain ⟨next, message, event, next', hsent, hmeans, hkind, hreceived, hv', hw'⟩ :=
    ht v w hhold.own.role hhold.peer.role hv hw
  have hcode : v.stateCode = state.code := hstate ▸ hv.stateCode
  apply (hhold.speaks hroster hcode hv.counted hpeer hw.counted (hsent _) hmeans hkind
    hreceived).mono
  intro _ t hhold'
  exact ⟨_, _, hhold', hv', hw'⟩

section Turns

variable {o : Offer} (hcp : Parties roster c p)
include hcp

theorem BothReached.accept (h : BothReached c p x y net) (hstate : x.state = .offered)
    (hcount : x.count + 1 < 2 ^ 64) :
    Yields ((c.manager roster).processState (environment roster.ids c.site) (send roster c.site)
      .offered) net fun _ net' =>
        BothReached c p { x with state := .accepting, count := x.count + 1 } y net' := by
  apply h.enters hcp.equips hstate hcount
  intro v now id hrole hvs
  rw [hcp.consumer] at hrole
  simp [Manager.turn, transition, advance, advanceConsumer, hrole, hvs]

theorem BothReached.confirm (h : BothReached c p x y net) (hstate : x.state = .accepting)
    (hlast : x.offers.getLast? = some o) (hcount : x.count + 1 < 2 ^ 64)
    (hpeer : y.state = .offered) (hcount' : y.count + 1 < 2 ^ 64) :
    Yields ((c.manager roster).processState (environment roster.ids c.site) (send roster c.site)
      .accepting) net fun _ net' => BothReached c p
        { x with state := .accepted, count := x.count + 1 }
        { y with state := .consumerRequested, count := y.count + 1, offers := y.offers ++ [o] }
          net' := by
  apply h.tells hcp.equips hcp.equips'.typed hstate
  intro v w hrole hrole' hv hw
  rw [hcp.consumer] at hrole
  rw [hcp.provider] at hrole' ⊢
  have hlastv : v.lastOffer? = some o := by rwa [lastOffer?, hv.offers]
  let options := (c.manager roster).options
  refine ⟨v.enter .accepted net.now,
    v.requestMessage options.participantId options.callbackAddress, .requestReceived o,
    (w.enter .consumerRequested net.now).addOffer o, fun id => ?_, .request _ o hlastv,
    by simp [requestMessage], ?_, hv.enter hcount _, hw.addOffer hcount' _ o⟩
  · simp [Manager.turn, transition, advance, advanceConsumer, hrole, hv.state_eq, hstate, options]
  · simp only [transition, hrole', hw.state_eq, hpeer, and_self, if_true]

theorem BothReached.check (h : BothReached c p x y net) (hstate : x.state = .agreed)
    (hcount : x.count + 1 < 2 ^ 64) :
    Yields ((c.manager roster).processState (environment roster.ids c.site) (send roster c.site)
      .agreed) net fun _ net' =>
        BothReached c p { x with state := .verifying, count := x.count + 1 } y net' := by
  apply h.enters hcp.equips hstate hcount
  intro v now id hrole hvs
  rw [hcp.consumer] at hrole
  simp [Manager.turn, transition, advance, advanceConsumer, hrole, hvs]

theorem BothReached.verify (h : BothReached c p x y net) (hstate : x.state = .verifying)
    (hcount : x.count + 1 < 2 ^ 64) (hpeer : y.state = .agreed) (hcount' : y.count + 1 < 2 ^ 64) :
    Yields ((c.manager roster).processState (environment roster.ids c.site) (send roster c.site)
      .verifying) net fun _ net' => BothReached c p
        { x with state := .verified, count := x.count + 1 }
        { y with state := .verified, count := y.count + 1 } net' := by
  apply h.tells hcp.equips hcp.equips'.typed hstate
  intro v w hrole hrole' hv hw
  rw [hcp.consumer] at hrole
  rw [hcp.provider] at hrole' ⊢
  refine ⟨v.enter .verified net.now, .verification ⟨v.routing⟩, .verificationReceived,
    w.enter .verified net.now, fun id => ?_, .verification _, by simp, ?_, hv.enter hcount _,
    hw.enter hcount' _⟩
  · simp [Manager.turn, transition, advance, advanceConsumer, hrole, hv.state_eq, hstate]
  · simp only [transition, hrole', hw.state_eq, hpeer, and_self, if_true]

theorem BothReached.draft (h : BothReached p c y x net) (hstate : y.state = .consumerRequested)
    (hlast : y.offers.getLast? = some o) (hcount : y.count + 1 < 2 ^ 64) :
    Yields ((p.manager roster).processState (environment roster.ids p.site) (send roster p.site)
      .consumerRequested) net fun _ net' => ∃ a : Agreement, a.id ≠ "" ∧ a.HasTermsOf o ∧
        BothReached p c ⟨.agreeing, y.count + 1, y.offers, some a⟩ x net' := by
  obtain ⟨v, w, hhold, hv, hw⟩ := h
  have hvs : v.state = .consumerRequested := hv.state_eq.trans hstate
  have hcode : v.stateCode = State.consumerRequested.code := hstate ▸ hv.stateCode
  have hrole : v.role = some .provider := hcp.provider ▸ hhold.own.role
  have hlastv : v.lastOffer? = some o := by rwa [lastOffer?, hv.offers]
  have hdraws : v.drawsId (p.manager roster).turn = true := by
    simp [Manager.turn, drawsId, needsDraft, hrole, hvs]
  let a := v.draftAgreement (p.manager roster).options.participantId net.now (roster.ids net.issued)
  have ha : a.id ≠ "" ∧ a.HasTermsOf o := by
    simp only [a, draftAgreement, hlastv]
    exact ⟨hcp.ids _, ⟨rfl, rfl, rfl, rfl⟩⟩
  have ht : v.transition (p.manager roster).turn net.now
      (if v.drawsId (p.manager roster).turn then roster.ids net.issued else "") =
        .applied { v.enter .agreeing net.now with agreement := some a } none := by
    rw [if_pos hdraws]
    simp [Manager.turn, transition, advance, advanceProvider, hrole, hvs, a]
  apply (hhold.silent hcp.equips' hcode hv.counted ht).mono
  intro _ t hhold'
  exact ⟨a, ha.1, ha.2, _, _, hhold', hv.successor hcount rfl hv.offers rfl, hw⟩

theorem BothReached.offer (h : BothReached p c y x net) (hstate : y.state = .offering)
    (hlast : y.offers.getLast? = some o) (hcount : y.count + 1 < 2 ^ 64)
    (hpeer : x.state ∈ [.requested, .accepted]) (hcount' : x.count + 1 < 2 ^ 64) :
    Yields ((p.manager roster).processState (environment roster.ids p.site) (send roster p.site)
      .offering) net fun _ net' => BothReached p c
        { y with state := .offered, count := y.count + 1 }
        { x with state := .offered, count := x.count + 1, offers := x.offers ++ [o] } net' := by
  apply h.tells hcp.equips' hcp.equips.typed hstate
  intro v w hrole hrole' hv hw
  rw [hcp.provider] at hrole
  rw [hcp.consumer] at hrole' ⊢
  have hlastv : v.lastOffer? = some o := by rwa [lastOffer?, hv.offers]
  refine ⟨v.enter .offered net.now, .offer ⟨v.routing, some o⟩, .offerReceived o,
    (w.enter .offered net.now).addOffer o, fun id => ?_, .offer _, by simp, ?_,
    hv.enter hcount _, hw.addOffer hcount' _ o⟩
  · simp [Manager.turn, transition, advance, advanceProvider, hrole, hv.state_eq, hstate, hlastv]
  · simp only [transition, hrole', hw.state_eq, hpeer, and_self, if_true]

theorem BothReached.agree {a : Agreement} (h : BothReached p c y x net)
    (hstate : y.state = .agreeing)
    (ha : y.agreement = some a) (hid : a.id ≠ "") (hon : a.HasTermsOf o)
    (hcount : y.count + 1 < 2 ^ 64)
    (hpeer : x.state ∈ [.requesting, .requested, .accepting, .accepted])
    (hcount' : x.count + 1 < 2 ^ 64) :
    Yields ((p.manager roster).processState (environment roster.ids p.site) (send roster p.site)
      .agreeing) net fun _ net' => BothReached p c { y with state := .agreed, count := y.count + 1 }
        { x with state := .agreed, count := x.count + 1, agreement := some a } net' := by
  apply h.tells hcp.equips' hcp.equips.typed hstate
  intro v w hrole hrole' hv hw
  rw [hcp.provider] at hrole
  rw [hcp.consumer] at hrole' ⊢
  have hva : v.agreement = some a := hv.agreement.trans ha
  refine ⟨{ v.enter .agreed net.now with agreement := some a }, v.agreementMessage a,
    .agreementReceived a (a.policy.getD {}), { w.enter .agreed net.now with agreement := some a },
    fun id => ?_, .agreement _ hid, by simp [agreementMessage], ?_,
    hv.successor hcount rfl hv.offers ha.symm, hw.successor hcount' rfl hw.offers rfl⟩
  · simp [Manager.turn, transition, advance, advanceProvider, hrole, hv.state_eq, hstate, hva]
  · simp only [transition, hrole', hw.state_eq, hpeer, and_self, if_true, hon.getD]

theorem BothReached.prepare (h : BothReached p c y x net) (hstate : y.state = .verified)
    (hcount : y.count + 1 < 2 ^ 64) :
    Yields ((p.manager roster).processState (environment roster.ids p.site) (send roster p.site)
      .verified) net fun _ net' =>
        BothReached p c { y with state := .finalizing, count := y.count + 1 } x net' := by
  apply h.enters hcp.equips' hstate hcount
  intro v now id hrole hvs
  rw [hcp.provider] at hrole
  simp [Manager.turn, transition, advance, advanceProvider, hrole, hvs]

theorem BothReached.finalize (h : BothReached p c y x net) (hstate : y.state = .finalizing)
    (hcount : y.count + 1 < 2 ^ 64) (hpeer : x.state = .verified) (hcount' : x.count + 1 < 2 ^ 64) :
    Yields ((p.manager roster).processState (environment roster.ids p.site) (send roster p.site)
      .finalizing) net fun _ net' => BothReached p c
        { y with state := .finalized, count := y.count + 1 }
        { x with state := .finalized, count := x.count + 1 } net' := by
  apply h.tells hcp.equips' hcp.equips.typed hstate
  intro v w hrole hrole' hv hw
  rw [hcp.provider] at hrole
  rw [hcp.consumer] at hrole' ⊢
  refine ⟨v.enter .finalized net.now, .event ⟨v.routing, .finalized⟩, .finalizationReceived,
    w.enter .finalized net.now, fun id => ?_, .event _, by simp, ?_, hv.enter hcount _,
    hw.enter hcount' _⟩
  · simp [Manager.turn, transition, advance, advanceProvider, hrole, hv.state_eq, hstate]
  · simp [transition, hrole', hw.state_eq, hpeer]

end Turns

theorem BothReached.polls {before after : List State} {S T : Network n → Prop}
    (h : BothReached a b x y net)
    (hbefore : x.state ∉ before)
    (hturn : ∀ t, BothReached a b x y t → Yields ((a.manager roster).processState
      (environment roster.ids a.site) (send roster a.site) state) t fun _ u => S u)
    (hafter : ∀ t, S t → Yields (total ((a.manager roster).processState
      (environment roster.ids a.site) (send roster a.site)) after) t fun _ u => T u) :
    Yields (total ((a.manager roster).processState (environment roster.ids a.site)
      (send roster a.site)) (before ++ state :: after)) net fun _ u => T u := by
  apply total_append_yields _ (h.passes hbefore)
  intro t ht
  exact total_cons_yields hafter (hturn t ht)

section Rounds

variable {o : Offer} {given given' : List Offer} {agreement : Option Agreement} {k l : Nat}
  (hcp : Parties roster c p)
include hcp

theorem BothReached.offers
    (h : BothReached p c ⟨.offering, l, given', none⟩ ⟨state, k, given, none⟩ net)
    (hstate : state ∈ [.requested, .accepted]) (hlast : given'.getLast? = some o)
    (hl : l + 1 < 2 ^ 64) (hk : k + 1 < 2 ^ 64) :
    Yields (runOnce roster p.site p.role) net fun _ net' =>
      BothReached p c ⟨.offered, l + 1, given', none⟩
        ⟨.offered, k + 1, given ++ [o], none⟩ net' := by
  have hstates : State.processable p.role =
      [.consumerRequested] ++ .offering :: [.agreeing, .verified, .finalizing, .terminating] := by
    rw [hcp.provider]
    rfl
  apply h.round hcp.equips'
  intro t ht
  rw [hstates]
  apply ht.polls (by simp) (fun u hu => hu.offer hcp rfl hlast hl hstate hk)
  intro u hu
  exact hu.passes (by simp)

theorem BothReached.accepts
    (h : BothReached c p ⟨.offered, k, given, none⟩ ⟨.offered, l, given', none⟩ net)
    (hlast : given.getLast? = some o) (hk : k + 2 < 2 ^ 64) (hl : l + 1 < 2 ^ 64) :
    Yields (runOnce roster c.site c.role) net fun _ net' =>
      BothReached c p ⟨.accepted, k + 2, given, none⟩
        ⟨.consumerRequested, l + 1, given' ++ [o], none⟩
        net' := by
  have hstates : State.processable c.role =
      [.requesting] ++ .offered :: ([] ++ .accepting :: [.agreed, .verifying, .terminating]) := by
    rw [hcp.consumer]
    rfl
  apply h.round hcp.equips
  intro t ht
  rw [hstates]
  apply ht.polls (by simp) (fun u hu => hu.accept hcp rfl (Nat.lt_of_succ_lt hk))
  intro u hu
  apply hu.polls (by simp) (fun u hu => hu.confirm hcp rfl hlast hk rfl hl)
  intro u hu
  exact hu.passes (by simp)

theorem BothReached.agrees
    (h : BothReached p c ⟨.consumerRequested, l, given', none⟩ ⟨state, k, given, none⟩ net)
    (hstate : state ∈ [.requested, .accepted]) (hlast : given'.getLast? = some o)
    (hl : l + 2 < 2 ^ 64) (hk : k + 1 < 2 ^ 64) :
    Yields (runOnce roster p.site p.role) net fun _ net' => ∃ a : Agreement, a.HasTermsOf o ∧
      BothReached p c ⟨.agreed, l + 2, given', some a⟩ ⟨.agreed, k + 1, given, some a⟩ net' := by
  have hstates : State.processable p.role = [] ++ .consumerRequested ::
      ([.offering] ++ .agreeing :: [.verified, .finalizing, .terminating]) := by
    rw [hcp.provider]
    rfl
  have hagree : state ∈ [.requesting, .requested, .accepting, .accepted] := by
    simp only [List.mem_cons, List.not_mem_nil, or_false] at hstate ⊢
    tauto
  apply h.round hcp.equips'
  intro t ht
  rw [hstates]
  apply ht.polls (by simp) (fun u hu => hu.draft hcp rfl hlast (Nat.lt_of_succ_lt hl))
  rintro u ⟨a, hid, hon, hu⟩
  apply hu.polls (by simp) (fun u hu => hu.agree hcp rfl rfl hid hon hl hagree hk)
  intro u hu
  apply (hu.passes (by simp)).mono
  intro _ net' hnet
  exact ⟨a, hon, hnet⟩

theorem BothReached.verifies
    (h : BothReached c p ⟨.agreed, k, given, agreement⟩ ⟨.agreed, l, given', agreement⟩ net)
    (hk : k + 2 < 2 ^ 64) (hl : l + 1 < 2 ^ 64) :
    Yields (runOnce roster c.site c.role) net fun _ net' =>
      BothReached c p ⟨.verified, k + 2, given, agreement⟩ ⟨.verified, l + 1, given', agreement⟩
        net' := by
  have hstates : State.processable c.role =
      [.requesting, .offered, .accepting] ++ .agreed :: ([] ++ .verifying :: [.terminating]) := by
    rw [hcp.consumer]
    rfl
  apply h.round hcp.equips
  intro t ht
  rw [hstates]
  apply ht.polls (by simp) (fun u hu => hu.check hcp rfl (Nat.lt_of_succ_lt hk))
  intro u hu
  apply hu.polls (by simp) (fun u hu => hu.verify hcp rfl hk rfl hl)
  intro u hu
  exact hu.passes (by simp)

theorem BothReached.finalizes
    (h : BothReached p c ⟨.verified, l, given', agreement⟩ ⟨.verified, k, given, agreement⟩ net)
    (hl : l + 2 < 2 ^ 64) (hk : k + 1 < 2 ^ 64) :
    Yields (runOnce roster p.site p.role) net fun _ net' =>
      BothReached p c ⟨.finalized, l + 2, given', agreement⟩ ⟨.finalized, k + 1, given, agreement⟩
        net' := by
  have hstates : State.processable p.role = [.consumerRequested, .offering, .agreeing] ++
      .verified :: ([] ++ .finalizing :: [.terminating]) := by
    rw [hcp.provider]
    rfl
  apply h.round hcp.equips'
  intro t ht
  rw [hstates]
  apply ht.polls (by simp) (fun u hu => hu.prepare hcp rfl (Nat.lt_of_succ_lt hl))
  intro u hu
  apply hu.polls (by simp) (fun u hu => hu.finalize hcp rfl hl rfl hk)
  intro u hu
  exact hu.passes (by simp)

end Rounds

end Network

end ContractNegotiation
