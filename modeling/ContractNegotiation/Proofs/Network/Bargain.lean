import ContractNegotiation.Proofs.Network.PartyTurns

namespace ContractNegotiation

open ContractNegotiation.Action Negotiation

namespace Settings

variable {s : Settings}

structure Checked (s : Settings) : Prop where
  completed : ∃ given : Settings, s = given.withDefaults
  valid : s.validate = .ok ()

theorem checked_of_document {node : Node} {unreadable : String → SettingsError}
    (h : ofDocument node unreadable = .ok s) : s.Checked := by
  unfold ofDocument at h
  split at h
  · cases h
  · split at h
    · cases h
    · split at h <;> cases h
      exact ⟨⟨_, rfl⟩, by assumption⟩

theorem Checked.identity (h : s.Checked) :
    s.connectorOrDefault.participantId ≠ "" ∧ s.connectorOrDefault.address ≠ "" := by
  have hvalid := h.valid
  unfold validate at hvalid
  split at hvalid
  · cases hvalid
  · split at hvalid
    · cases hvalid
    · constructor <;> assumption

theorem Checked.batchSize (h : s.Checked) : s.managerOrDefault.batchSize ≠ 0 := by
  obtain ⟨given, rfl⟩ := h.completed
  show ManagerSettings.orStandard _ 5 ≠ 0
  unfold ManagerSettings.orStandard
  split
  · decide
  · assumption

end Settings

structure Counter where
  offer : Offer
  made : Instant
  sent : Instant
  answered : Instant

structure Offer.Given (asked given : Offer) : Prop where
  terms : given = { asked with id := given.id }
  named : given.id ≠ ""
  kept : asked.id ≠ "" → given.id = asked.id

theorem Agreement.HasTermsOf.asked {a : Agreement} {asked given : Offer} (h : a.HasTermsOf given)
    (hgiven : asked.Given given) : a.HasTermsOf asked := by
  rw [hgiven.terms] at h
  exact ⟨h.assetId, h.policy, h.startDate, h.endDate⟩

theorem Offer.Given.last {asked given : Offer} {askeds givens : List Offer}
    (h : asked.Given given) (hs : List.Forall₂ Offer.Given askeds givens) :
    (askeds.getLast?.getD asked).Given (givens.getLast?.getD given) := by
  induction hs generalizing asked given with
  | nil => exact h
  | cons hx _ ih => simpa only [List.getLast?_cons, Option.getD_some] using ih hx

namespace Network

section Schedule

variable {n : Nat} (roster : Roster n) (i j : Fin n)

def atTime {α : Type} (now : Instant) (x : Action (Network n) α) : Action (Network n) α := do
  modify fun net => { net with now }
  x

def granted (x : Action (Network n) (Except Refusal Negotiation)) :
    Action (Network n) Negotiation := do
  match ← x with
  | .ok v => pure v
  | .error refusal => throw ⟨refusal.message⟩

def inquire (request : ContractRequest) : Action (Network n) Negotiation :=
  granted (Service.initiate (roster.connector i) (environment roster.ids i) request)

def counter (id : String) (x : Counter) : Action (Network n) Unit := do
  let _ ← atTime x.made
    (granted (Service.counterOffer (roster.connector j) (environment roster.ids j) id x.offer))
  let _ ← atTime x.sent (runOnce roster j .provider)
  let _ ← atTime x.answered (runOnce roster i .consumer)

def close (agreed verified finalized : Instant) : Action (Network n) Unit := do
  let _ ← atTime agreed (runOnce roster j .provider)
  let _ ← atTime verified (runOnce roster i .consumer)
  let _ ← atTime finalized (runOnce roster j .provider)

def bargain (request : ContractRequest) (asked requested : Instant) (counters : List Counter)
    (agreed verified finalized : Instant) : Action (Network n) Unit := do
  let c ← atTime asked (inquire roster i request)
  let _ ← atTime requested (runOnce roster i .consumer)
  match ← Service.get (environment roster.ids i) c.id with
  | none => throw ⟨"the request is lost"⟩
  | some c => do
    each (counter roster i j c.correlationId) counters
    close roster i j agreed verified finalized

def seat : Role → Fin n
  | .consumer => i
  | .provider => j

def turnAt (turn : Role × Instant) : Action (Network n) Unit := do
  let _ ← atTime turn.2 (runOnce roster (seat i j turn.1) turn.1)

def haggle (request : ContractRequest) (asked : Instant) (turns : List (Role × Instant)) :
    Action (Network n) Unit := do
  let _ ← atTime asked (inquire roster i request)
  each (turnAt roster i j) turns

end Schedule

variable {n : Nat} {roster : Roster n} {net net' : Network n} {c p : Party n} {x : Progress}

theorem atTime_yields {α : Type} {now : Instant} {x : Action (Network n) α}
    {R : α → Network n → Prop} (h : Yields x { net with now } R) : Yields (atTime now x) net R := by
  obtain ⟨a, t, hx, ht⟩ := h
  exact ⟨a, t, hx, ht⟩

theorem granted_yields {x : Action (Network n) (Except Refusal Negotiation)}
    {R : Negotiation → Network n → Prop}
    (h : Yields x net fun r t => ∃ v, r = .ok v ∧ R v t) : Yields (granted x) net R := by
  apply h.bind
  rintro _ t ⟨v, rfl, ht⟩
  exact yields_pure.mpr ht

section Calls

variable {ids : Nat → String} {i j : Fin n} {o : Offer}

structure Asks (c : Party n) (j : Fin n) (o : Offer) (v : Negotiation)
    (net : Network n) : Prop where
  idle : (net.site c.site).Idle [v]
  route : net.addresses.get? v.counterPartyAddress = some j
  id : v.id = c.id
  role : v.role = some c.role
  correlationId : v.correlationId = ""
  named : c.id ≠ ""
  stands : v.Reached ⟨.requesting, 1, [o], none⟩

theorem Asks.keeps {v : Negotiation} (h : Asks c j o v net) (hs : ∀ k, net'.site k = net.site k)
    (ha : net'.addresses = net.addresses) : Asks c j o v net' :=
  ⟨hs _ ▸ h.idle, ha ▸ h.route, h.id, h.role, h.correlationId, h.named, h.stands⟩

theorem Asks.later {v : Negotiation} (h : Asks c j o v net) (now : Instant) :
    Asks c j o v { net with now } := h.keeps (fun _ => rfl) rfl

theorem Asks.answered {v next : Negotiation} {id : String} (h : Asks c j o v net)
    (hc : v.Continues next) (hidle : (net'.site c.site).Idle [v.successor next id])
    (ha : net'.addresses = net.addresses) :
    c.Holds ⟨j, .provider, id⟩ (v.successor next id) net' := by
  rw [successor_eq, if_pos (hc.correlationId.trans h.correlationId)] at hidle ⊢
  refine ⟨hidle, ?_, hc.id.trans h.id, hc.role.trans h.role, rfl, h.named⟩
  rw [ha, hc.counterPartyAddress]
  exact h.route

theorem identified_given (hids : ∀ k, ids k ≠ "") (asked : Offer) :
    Yields (Manager.identified (environment ids i) asked) net fun given net' =>
      asked.Given given ∧ Alters i (net.site i) net net' := by
  apply (identified_yields asked).mono
  rintro given net' ⟨rfl, ha⟩
  refine ⟨?_, ha⟩
  split
  · rename_i hid
    exact ⟨rfl, hids _, fun hne => absurd hid hne⟩
  · rename_i hid
    exact ⟨rfl, hid, fun _ => rfl⟩

theorem insert_opens (h : (net.site i).Idle []) (m : Manager) {v : Negotiation} (hid : v.id ≠ "") :
    Yields (m.insert (environment ids i) v) net fun r net' =>
      r = .ok (v.opening m.role net.now) ∧ (net'.site i).Idle [v.opening m.role net.now] ∧
        (focus i).Confined net net' := by
  have hinsert : ((net.site i).insert m.role net.now v).1 = .ok (v.opening m.role net.now) ∧
      ((net.site i).insert m.role net.now v).2.Idle [v.opening m.role net.now] := h.insert hid
  apply (insert_yields m v).mono
  rintro r net' ⟨rfl, ha⟩
  exact ⟨hinsert.1, ha.site ▸ hinsert.2, ha.toConfined⟩

theorem initiate_asks (hids : ∀ k, roster.ids k ≠ "") (hroster : roster.Equips i)
    (hidle : (net.site i).Idle []) {request : ContractRequest} {asked : Offer}
    (ho : request.offer = some asked) (haddress : request.counterPartyAddress ≠ "")
    (hj : net.addresses.get? request.counterPartyAddress = some j) :
    Yields (Service.initiate (roster.connector i) (environment roster.ids i) request) net
      fun r net' => ∃ v o, r = .ok v ∧ asked.Given o ∧ Asks ⟨i, .consumer, v.id⟩ j o v net' ∧
        (focus i).Confined net net' := by
  apply call_yields
  unfold Manager.initiate
  simp only [ho, if_neg haddress]
  apply freshId_yields.bind
  rintro id t ⟨rfl, ht⟩
  apply (identified_given hids asked).bind
  rintro o u ⟨ho, hu⟩
  rw [ht.site] at hu
  have hidle' : (u.site i).Idle [] := hu.site.symm ▸ hidle
  apply (insert_opens hidle' (roster.connector i).consumer (hids net.issued)).mono
  rintro r net' ⟨rfl, hopened, hc⟩
  have hconfined := (ht.trans hu).toConfined.trans hc
  refine ⟨_, o, rfl, ho, ⟨hopened, ?_, rfl, ?_, rfl, hids _, ?_⟩, hconfined⟩
  · rw [addresses_of_confined hconfined]
    exact hj
  · exact congrArg some hroster.typed.consumer
  · exact Negotiation.opening_reached rfl rfl rfl

theorem requested_opens (hids : ∀ k, ids k ≠ "") (h : (net.site j).Idle []) {m : Manager}
    (hm : m.role = .provider) {token : ClaimToken} (htoken : token.clientId ≠ "")
    {request : RequestMessage} (hid : request.processId ≠ "") (ho : request.offer = some o)
    (hcallback : request.callbackAddress ≠ "")
    (hi : net.addresses.get? request.callbackAddress = some i) :
    Yields (m.requested (environment ids j) token request) net fun r net' => ∃ w, r = .ok w ∧
      (⟨j, .provider, w.id⟩ : Party n).Holds ⟨i, .consumer, request.processId⟩ w net' ∧
        w.Reached ⟨.consumerRequested, 1, [o], none⟩ ∧ (focus j).Confined net net' := by
  unfold Manager.requested
  simp only [if_neg hid, ho]
  apply (findCorrelated_yields m request.processId).bind
  rintro found t ⟨rfl, rfl⟩
  have hnone : (t.site j).store.findByCorrelation? request.processId = none := by
    simp [Store.findByCorrelation?, h.records]
  simp only [hnone, Manager.own, Option.filter_none, htoken, ne_eq, not_false_eq_true, if_true,
    if_false, hcallback]
  apply freshId_yields.bind
  rintro id u ⟨rfl, hu⟩
  have hidle : (u.site j).Idle [] := hu.site.symm ▸ h
  apply (insert_opens hidle m (hids t.issued)).mono
  rintro r net' ⟨rfl, hopened, hc⟩
  have hconfined := hu.toConfined.trans hc
  refine ⟨_, rfl, ⟨hopened, ?_, rfl, congrArg some hm, rfl, hids _⟩,
    Negotiation.opening_reached rfl rfl rfl, hconfined⟩
  rw [addresses_of_confined hconfined]
  exact hi

structure Opened (c : Party n) (j : Fin n) (o : Offer) (net : Network n) (id : String)
    (net' : Network n) : Prop where
  peer : ∃ w, (⟨j, .provider, id⟩ : Party n).Holds c w net' ∧
    w.Reached ⟨.consumerRequested, 1, [o], none⟩
  site : net'.site c.site = net.site c.site
  addresses : net'.addresses = net.addresses

def asking (roster : Roster n) (c : Party n) (v : Negotiation) : RequestMessage :=
  ⟨v.routing, (c.manager roster).options.participantId,
    (c.manager roster).options.callbackAddress, v.lastOffer?⟩

section Requesting

variable {v : Negotiation}

theorem Asks.advances (h : Asks c j o v net) (hconsumer : c.role = .consumer) (now : Instant)
    (agreementId : String) : v.transition (c.manager roster).turn now agreementId =
      .applied (v.enter .requested now) (some (.request (asking roster c v))) := by
  have hr := h.role
  rw [hconsumer] at hr
  simp [Manager.turn, transition, advance, advanceConsumer, requestMessage, hr, h.stands.state_eq,
    asking]

variable (h : Asks c j o v net) (hids : ∀ k, roster.ids k ≠ "") (hconsumer : c.role = .consumer)
  (hroster : roster.Equips c.site) (hprovider : (roster.connector j).Typed) (hapart : c.site ≠ j)
  (hidle : (net.site j).Idle [])
  (hback : net.addresses.get? (roster.connector c.site).address = some c.site)
include h hids hconsumer hroster hprovider hapart hidle hback

theorem Asks.sends (hc : (focus c.site).Confined net net') :
    Yields (send roster c.site (.request (asking roster c v))) net' fun answer t =>
      ∃ id, answer = .ok id ∧ Opened c j o net' id t := by
  have haddresses := addresses_of_confined hc
  have hidle' : (net'.site j).Idle [] := by rwa [site_of_confined hc hapart.symm]
  have htoken : (Loopback.senderToken (roster.connector c.site).participantId).clientId ≠ "" := by
    rw [clientId_senderToken]
    exact hroster.participantId
  have hnamed : v.id ≠ "" := h.id ▸ h.named
  have hoffer : (asking roster c v).offer = some o := by
    show v.offers.getLast? = some o
    rw [h.stands.offers]
    rfl
  have hcallback : (asking roster c v).callbackAddress = (roster.connector c.site).address :=
    hroster.callback c.role
  have hback' : net'.addresses.get? (asking roster c v).callbackAddress = some c.site := by
    rw [hcallback, haddresses, hback]
  have hrequested := requested_opens hids hidle' hprovider.provider htoken hnamed hoffer
    (hcallback ▸ hroster.address) hback'
  have hreceived : Yields (Service.receive (roster.connector j) (environment roster.ids j)
      (.request (asking roster c v))
      (Loopback.senderToken (roster.connector c.site).participantId)) net' _ :=
    (call_yields .notifyRequested v.id hrequested).map some
  apply (send_yields (haddresses ▸ h.route) hreceived).mono
  rintro _ t ⟨_, rfl, _, rfl, w, rfl, hholds, hreached, ht⟩
  have hparty : (⟨c.site, .consumer, v.id⟩ : Party n) = c := by rw [h.id, ← hconsumer]
  exact ⟨w.id, rfl, ⟨w, hparty ▸ hholds, hreached⟩, site_of_confined ht hapart,
    addresses_of_confined ht⟩

theorem Asks.request : Yields ((c.manager roster).processState (environment roster.ids c.site)
      (send roster c.site) .requesting) net fun _ net' => ∃ id,
        BothReached c ⟨j, .provider, id⟩ ⟨.requested, 2, [o], none⟩
          ⟨.consumerRequested, 1, [o], none⟩ net' := by
  have hrole : v.role = some (c.manager roster).role :=
    h.role.trans (congrArg some (hroster.typed.manager c.role).symm)
  let t := leasing c.site (c.manager roster) v net
  have hleasing : (focus c.site).Confined net t := confined_leasing ..
  have hbusy : (t.site c.site).Busy (c.manager roster).leaseHolder v := busy_leasing h.idle
  have ht (agreementId : String) : v.transition (c.manager roster).turn t.now agreementId =
      .applied (v.enter .requested net.now) (some (.request (asking roster c v))) :=
    h.advances hconsumer t.now agreementId
  have hsend (u : Network n) (hu : Alters c.site (t.site c.site) t u) :
      Yields (send roster c.site (.request (asking roster c v))) u fun answer u' =>
        ∃ id, answer = .ok id ∧ Opened c j o t id u' := by
    apply (h.sends hids hconsumer hroster hprovider hapart hidle hback
      (hleasing.trans hu.toConfined)).mono
    rintro answer u' ⟨id, rfl, hopened⟩
    exact ⟨id, rfl, hopened.peer, hopened.site.trans hu.site,
      hopened.addresses.trans (addresses_of_confined hu.toConfined)⟩
  apply processState_single h.idle h.stands.stateCode hrole (hroster.batchSize _)
  apply (processLeased_accepted (ht _) hsend _).mono
  · rintro _ net' ⟨id, u, ⟨⟨w, hholds, hw⟩, hsite, haddresses⟩, ha⟩
    have hc := (row_of_transition (ht "")).continues
    have haddresses' := addresses_of_confined ha.toConfined
    refine ⟨id, v.successor _ id, w, ⟨?_, ?_, hapart⟩, h.stands.enter (by simp) net.now, hw⟩
    · apply h.answered hc
      · rw [ha.site, hsite]
        exact hbusy.settle (hc.id_successor id)
      · rw [haddresses', haddresses, addresses_of_confined hleasing]
    · exact hholds.keeps (site_of_confined ha.toConfined hapart.symm) haddresses'
  · intro id u hopened
    rw [hopened.site]
    exact hbusy.grants (h.id ▸ h.named) h.stands.counted

theorem Asks.opens : Yields (runOnce roster c.site c.role) net fun _ net' => ∃ id,
    BothReached c ⟨j, .provider, id⟩ ⟨.requested, 2, [o], none⟩ ⟨.consumerRequested, 1, [o], none⟩
      net' := by
  have hstates : State.processable ((roster.connector c.site).manager c.role).role =
      .requesting :: [.offered, .accepting, .agreed, .verifying, .terminating] := by
    rw [hroster.typed.manager, hconsumer]
    rfl
  apply (drainCommands_idle h.idle (c.manager roster)).bind
  intro _ t ht
  have hsites := sites_of_keeps ht
  have haddresses := addresses_of_confined ht.toConfined
  have hrequest := (h.keeps hsites haddresses).request hids hconsumer hroster hprovider hapart
    (hsites j ▸ hidle) (haddresses ▸ hback)
  rw [hstates]
  apply (total_cons_yields _ hrequest).bind
  · intro _ u hu
    exact yields_pure.mpr hu
  · rintro u ⟨id, hu⟩
    apply (hu.passes (by simp)).mono
    intro _ u' hu'
    exact ⟨id, hu'⟩

end Requesting

theorem BothReached.counters {given : List Offer} {l : Nat} (hcp : Parties roster c p)
    (h : BothReached p c ⟨.consumerRequested, l, given, none⟩ x net) (hl : l + 1 < 2 ^ 64)
    (asked : Offer) :
    Yields (Service.counterOffer (roster.connector p.site) (environment roster.ids p.site) p.id
      asked) net fun r net' => ∃ v o, r = .ok v ∧ asked.Given o ∧
        BothReached p c ⟨.offering, l + 1, given ++ [o], none⟩ x net' := by
  obtain ⟨v, w, hhold, hv, hw⟩ := h
  have hrole : v.role = some .provider := hcp.provider ▸ hhold.own.role
  apply call_yields
  apply (findOwned_yields (roster.connector p.site).provider p.id).bind
  rintro found t ⟨rfl, rfl⟩
  rw [← hhold.own.id, hhold.own.idle.find?]
  have hown : (roster.connector p.site).provider.own (some v) = some v := by
    simp [Manager.own, hcp.equips'.typed.provider, hrole]
  rw [hown]
  apply (identified_given hcp.ids asked).bind
  rintro o u ⟨ho, hu⟩
  let next := (v.enter .offering u.now).addOffer o
  have ht : v.transition (.counterOffer o) u.now "" = .applied next none := by
    simp only [transition, hrole, hv.state_eq, and_self, if_true, next]
  have hc := (row_of_transition ht).continues
  have hhold' := hhold.keeps (sites_of_keeps hu) (addresses_of_confined hu.toConfined)
  have hg := hhold'.own.idle.grants (hhold.own.id ▸ hhold.own.named) hv.counted ""
  apply (apply_yields (roster.connector p.site).provider rfl).mono
  rintro r net' ⟨rfl, ha⟩
  rw [Site.apply_eq ht hg] at ha ⊢
  have haddresses := addresses_of_confined ha.toConfined
  refine ⟨_, o, rfl, ho, v.successor next "", w, ⟨?_, ?_, hhold.apart⟩,
    hv.addOffer hl u.now o, hw⟩
  · apply hhold'.own.successor hhold.peer.named hc _ haddresses
    rw [ha.site]
    exact hhold'.own.idle.moveOn (hc.id_successor "")
  · exact hhold'.peer.keeps (site_of_confined ha.toConfined hhold.apart.symm) haddresses

end Calls

/-- After the counter-offers `made`: states and versions of the two records. The provider has each
counter-offer twice, as it made it and as it was accepted. -/
def AfterCounters (p c : Party n) (s : State) (l : Nat) (s' : State) (k : Nat) (first : Offer)
    (made : List Offer) (agreement : Option Agreement) : Network n → Prop :=
  BothReached p c ⟨s, l + 3 * made.length, first :: made.flatMap fun o => [o, o], agreement⟩
    ⟨s', k + 3 * made.length, first :: made, agreement⟩

theorem afterCounters_of_reached {s s' : State} {l k x y : Nat} {first : Offer} {made : List Offer}
    {agreement : Option Agreement}
    (h : BothReached p c ⟨s, x, first :: made.flatMap fun o => [o, o], agreement⟩
      ⟨s', y, first :: made, agreement⟩ net)
    (hx : x = l + 3 * made.length) (hy : y = k + 3 * made.length) :
    AfterCounters p c s l s' k first made agreement net := by
  subst hx hy
  exact h

theorem getLast?_doubled (first : Offer) (made : List Offer) :
    (first :: made.flatMap fun o => [o, o]).getLast? = some (made.getLast?.getD first) := by
  rw [List.getLast?_cons]
  rcases List.eq_nil_or_concat made with rfl | ⟨others, last, rfl⟩ <;> simp

section Bargaining

variable {first : Offer} {made : List Offer} {state : State} {a : Agreement}
  (hcp : Parties roster c p)
include hcp

theorem AfterCounters.countered
    (h : AfterCounters p c .consumerRequested 1 state 2 first made none net)
    (hstate : state ∈ [.requested, .accepted]) (x : Counter)
    (hcount : 5 + 3 * made.length < 2 ^ 64) :
    Yields (counter roster c.site p.site p.id x) net fun _ net' => ∃ o, x.offer.Given o ∧
      AfterCounters p c .consumerRequested 1 .accepted 2 first (made ++ [o]) none net' := by
  have hcounter : Yields (atTime x.made (granted (Service.counterOffer (roster.connector p.site)
      (environment roster.ids p.site) p.id x.offer))) net fun _ t => ∃ o, x.offer.Given o ∧
        BothReached p c ⟨.offering, 1 + 3 * made.length + 1,
          (first :: made.flatMap fun o => [o, o]) ++ [o], none⟩
          ⟨state, 2 + 3 * made.length, first :: made, none⟩ t := by
    apply atTime_yields
    apply granted_yields
    apply (BothReached.counters hcp (h.later x.made) (by omega) x.offer).mono
    rintro _ t ⟨v, o, rfl, ho, ht⟩
    exact ⟨v, rfl, o, ho, ht⟩
  apply hcounter.bind
  rintro _ t ⟨o, ho, ht⟩
  have hoffers := (ht.later x.sent).offers hcp hstate List.getLast?_concat (by omega) (by omega)
  rw [hcp.provider] at hoffers
  apply (atTime_yields hoffers).bind
  intro _ u hu
  have haccepts := (hu.symm.later x.answered).accepts hcp List.getLast?_concat (by omega) (by omega)
  rw [hcp.consumer] at haccepts
  apply (atTime_yields haccepts).bind
  intro _ net' hnet
  apply yields_pure.mpr
  refine ⟨o, ho, ?_⟩
  have hlength : (made ++ [o]).length = made.length + 1 := List.length_append
  have hdoubled : (made ++ [o]).flatMap (fun o => [o, o]) =
      made.flatMap (fun o => [o, o]) ++ [o] ++ [o] := by simp
  rw [AfterCounters, hlength, hdoubled]
  exact hnet.symm

theorem AfterCounters.each_countered (counters : List Counter)
    (h : AfterCounters p c .consumerRequested 1 state 2 first made none net)
    (hstate : state ∈ [.requested, .accepted])
    (hcount : 2 + 3 * (made.length + counters.length) < 2 ^ 64) :
    Yields (each (counter roster c.site p.site p.id) counters) net fun _ net' =>
      ∃ others, List.Forall₂ Offer.Given (counters.map Counter.offer) others ∧
        ∃ state' ∈ [State.requested, .accepted],
          AfterCounters p c .consumerRequested 1 state' 2 first (made ++ others) none net' := by
  induction counters generalizing net made state with
  | nil =>
    refine yields_pure.mpr ⟨[], .nil, state, hstate, ?_⟩
    rwa [List.append_nil]
  | cons x counters ih =>
    rw [List.length_cons] at hcount
    apply (h.countered hcp hstate x (by omega)).bind
    rintro _ t ⟨o, ho, ht⟩
    have hlength : (made ++ [o]).length = made.length + 1 := List.length_append
    apply (ih ht (by simp) (by omega)).mono
    rintro _ net' ⟨others, hothers, state', hstate', hnet⟩
    refine ⟨o :: others, .cons ho hothers, state', hstate', ?_⟩
    rwa [List.append_assoc] at hnet

section Resting

variable {s s' : State} {l k : Nat} {agreement : Option Agreement}
  (h : AfterCounters p c s l s' k first made agreement net)
include h

theorem AfterCounters.consumer_rests (hstate : s' ∉ State.processable .consumer) :
    Yields (runOnce roster c.site .consumer) net fun _ net' =>
      AfterCounters p c s l s' k first made agreement net' := by
  have hround := (BothReached.symm h).rests hcp.equips (hcp.consumer ▸ hstate)
  rw [hcp.consumer] at hround
  apply hround.mono
  intro _ t ht
  exact ht.symm

theorem AfterCounters.provider_rests (hstate : s ∉ State.processable .provider) :
    Yields (runOnce roster p.site .provider) net fun _ net' =>
      AfterCounters p c s l s' k first made agreement net' := by
  have hround := BothReached.rests hcp.equips' h (hcp.provider ▸ hstate)
  rwa [hcp.provider] at hround

end Resting

variable (hcount : 6 + 3 * made.length < 2 ^ 64)
include hcount

theorem AfterCounters.agrees
    (h : AfterCounters p c .consumerRequested 1 state 2 first made none net)
    (hstate : state ∈ [.requested, .accepted]) :
    Yields (runOnce roster p.site .provider) net fun _ net' =>
      ∃ a : Agreement, a.HasTermsOf (made.getLast?.getD first) ∧
        AfterCounters p c .agreed 3 .agreed 3 first made (some a) net' := by
  have hround := BothReached.agrees hcp h hstate (getLast?_doubled first made) (by omega) (by omega)
  rw [hcp.provider] at hround
  apply hround.mono
  rintro _ t ⟨a, ha, ht⟩
  exact ⟨a, ha, afterCounters_of_reached ht (by omega) (by omega)⟩

theorem AfterCounters.verifies (h : AfterCounters p c .agreed 3 .agreed 3 first made (some a) net) :
    Yields (runOnce roster c.site .consumer) net fun _ net' =>
      AfterCounters p c .verified 4 .verified 5 first made (some a) net' := by
  have hround := (BothReached.symm h).verifies hcp (by omega) (by omega)
  rw [hcp.consumer] at hround
  apply hround.mono
  intro _ t ht
  exact afterCounters_of_reached ht.symm (by omega) (by omega)

theorem AfterCounters.finalizes
    (h : AfterCounters p c .verified 4 .verified 5 first made (some a) net) :
    Yields (runOnce roster p.site .provider) net fun _ net' =>
      AfterCounters p c .finalized 6 .finalized 6 first made (some a) net' := by
  have hround := BothReached.finalizes hcp h (by omega) (by omega)
  rw [hcp.provider] at hround
  apply hround.mono
  intro _ t ht
  exact afterCounters_of_reached ht (by omega) (by omega)

theorem AfterCounters.closes
    (h : AfterCounters p c .consumerRequested 1 state 2 first made none net)
    (hstate : state ∈ [.requested, .accepted]) (agreed verified finalized : Instant) :
    Yields (close roster c.site p.site agreed verified finalized) net fun _ net' =>
      ∃ a : Agreement, a.HasTermsOf (made.getLast?.getD first) ∧
        AfterCounters p c .finalized 6 .finalized 6 first made (some a) net' := by
  have hagrees := AfterCounters.agrees hcp hcount (BothReached.later h agreed) hstate
  apply (atTime_yields hagrees).bind
  rintro _ t ⟨a, ha, ht⟩
  have hverifies := AfterCounters.verifies hcp hcount (BothReached.later ht verified)
  apply (atTime_yields hverifies).bind
  intro _ u hu
  have hfinalizes := AfterCounters.finalizes hcp hcount (BothReached.later hu finalized)
  apply (atTime_yields hfinalizes).bind
  intro _ net' hnet
  exact yields_pure.mpr ⟨a, ha, hnet⟩

end Bargaining

section Haggling

variable {i j : Fin n} {id : String} {o : Offer} {role : Role} {left : List Role}

/-- What is left to be done: the rounds that a negotiation without counter-offers still needs. -/
inductive Due (roster : Roster n) (c : Party n) (j : Fin n) (o : Offer) :
    List Role → Network n → Prop where
  | asked (v : Negotiation) (net : Network n) : Asks c j o v net → (net.site j).Idle [] →
      net.addresses.get? (roster.connector c.site).address = some c.site →
      Due roster c j o [.consumer, .provider, .consumer, .provider] net
  | requested (id : String) (net : Network n) :
      AfterCounters ⟨j, .provider, id⟩ c .consumerRequested 1 .requested 2 o [] none net →
      Due roster c j o [.provider, .consumer, .provider] net
  | agreed (id : String) (a : Agreement) (net : Network n) : a.HasTermsOf o →
      AfterCounters ⟨j, .provider, id⟩ c .agreed 3 .agreed 3 o [] (some a) net →
      Due roster c j o [.consumer, .provider] net
  | verified (id : String) (a : Agreement) (net : Network n) : a.HasTermsOf o →
      AfterCounters ⟨j, .provider, id⟩ c .verified 4 .verified 5 o [] (some a) net →
      Due roster c j o [.provider] net
  | finalized (id : String) (a : Agreement) (net : Network n) : a.HasTermsOf o →
      AfterCounters ⟨j, .provider, id⟩ c .finalized 6 .finalized 6 o [] (some a) net →
      Due roster c j o [] net

theorem Due.later (h : Due roster c j o left net) (now : Instant) :
    Due roster c j o left { net with now } := by
  cases h with
  | asked v _ h hidle hback =>
    exact .asked v _ (h.later now) hidle hback
  | requested id _ h => exact .requested id _ (BothReached.later h now)
  | agreed id a _ ha h => exact .agreed id a _ ha (BothReached.later h now)
  | verified id a _ ha h => exact .verified id a _ ha (BothReached.later h now)
  | finalized id a _ ha h => exact .finalized id a _ ha (BothReached.later h now)

variable (hids : ∀ k, roster.ids k ≠ "") (hconsumer : roster.Equips i)
  (hprovider : roster.Equips j) (hapart : i ≠ j)
include hids hconsumer hprovider hapart

theorem Due.round (h : Due roster ⟨i, .consumer, id⟩ j o left net) (role : Role) :
    Yields (runOnce roster (seat i j role) role) net fun _ net' => Due roster ⟨i, .consumer, id⟩ j o
      (if left.head? = some role then left.tail else left) net' := by
  have parties (id' : String) : Parties roster ⟨i, .consumer, id⟩ ⟨j, .provider, id'⟩ :=
    ⟨rfl, rfl, hconsumer, hprovider, hids⟩
  have hcount : 6 + 3 * ([] : List Offer).length < 2 ^ 64 := by simp
  cases h with
  | asked v _ h hidle hback =>
    cases role with
    | consumer =>
      apply (h.opens hids rfl hconsumer hprovider.typed hapart hidle hback).mono
      rintro _ t ⟨id', ht⟩
      exact .requested id' _ ht.symm
    | provider =>
      apply (runOnce_idle hidle (by simp)).mono
      intro _ t ht
      have hsites := sites_of_keeps ht
      have haddresses := addresses_of_confined ht.toConfined
      exact .asked v _ (h.keeps hsites haddresses) (hsites j ▸ hidle) (haddresses ▸ hback)
  | requested id' _ h =>
    cases role with
    | consumer =>
      apply (h.consumer_rests (parties id') (by decide)).mono
      intro _ t ht
      exact .requested id' _ ht
    | provider =>
      apply (h.agrees (parties id') hcount (by simp)).mono
      rintro _ t ⟨a, ha, ht⟩
      exact .agreed id' a _ ha ht
  | agreed id' a _ ha h =>
    cases role with
    | consumer =>
      apply (h.verifies (parties id') hcount).mono
      intro _ t ht
      exact .verified id' a _ ha ht
    | provider =>
      apply (h.provider_rests (parties id') (by decide)).mono
      intro _ t ht
      exact .agreed id' a _ ha ht
  | verified id' a _ ha h =>
    cases role with
    | consumer =>
      apply (h.consumer_rests (parties id') (by decide)).mono
      intro _ t ht
      exact .verified id' a _ ha ht
    | provider =>
      apply (h.finalizes (parties id') hcount).mono
      intro _ t ht
      exact .finalized id' a _ ha ht
  | finalized id' a _ ha h =>
    cases role with
    | consumer =>
      apply (h.consumer_rests (parties id') (by decide)).mono
      intro _ t ht
      exact .finalized id' a _ ha ht
    | provider =>
      apply (h.provider_rests (parties id') (by decide)).mono
      intro _ t ht
      exact .finalized id' a _ ha ht

theorem Due.turns (turns : List (Role × Instant)) (h : Due roster ⟨i, .consumer, id⟩ j o left net)
    (hturns : left.Sublist (turns.map Prod.fst)) :
    Yields (each (turnAt roster i j) turns) net fun _ net' =>
      Due roster ⟨i, .consumer, id⟩ j o [] net' := by
  induction turns generalizing net left with
  | nil =>
    obtain rfl := List.sublist_nil.mp hturns
    exact yields_pure.mpr h
  | cons turn turns ih =>
    have hround := (h.later turn.2).round hids hconsumer hprovider hapart turn.1
    have hturn : Yields (turnAt roster i j turn) net fun _ t => Due roster ⟨i, .consumer, id⟩ j o
        (if left.head? = some turn.1 then left.tail else left) t := by
      apply (atTime_yields hround).bind
      intro _ t ht
      exact yields_pure.mpr ht
    apply hturn.bind
    intro _ t ht
    apply ih ht
    -- a turn that is not due leaves all that is due to the rest of the turns
    cases hturns with
    | cons _ hturns =>
      split
      · exact (List.tail_sublist left).trans hturns
      · exact hturns
    | cons_cons _ hturns => simpa using hturns

end Haggling

structure Deal (asked : Offer) (counters : List Offer) (c p : Negotiation) : Prop where
  roles : c.role = some .consumer ∧ p.role = some .provider
  states : c.state = .finalized ∧ p.state = .finalized
  consumerCount : c.stateCount.toNat = 6 + 3 * counters.length
  providerCount : p.stateCount.toNat = 6 + 3 * counters.length
  consumerOffers : c.offers.length = 1 + counters.length
  providerOffers : p.offers.length = 1 + 2 * counters.length
  offers : ∃ first made, asked.Given first ∧ List.Forall₂ Offer.Given counters made ∧
    c.offers = first :: made ∧ p.offers = first :: made.flatMap fun o => [o, o]
  agreement : ∃ a, c.agreement = some a ∧ p.agreement = some a ∧
    a.HasTermsOf (counters.getLast?.getD asked)

def Dealt (i j : Fin n) (asked : Offer) (counters : List Offer) (net : Network n) : Prop :=
  ∃ c p, (net.site i).store.records = [c] ∧ (net.site j).store.records = [p] ∧
    Deal asked counters c p

theorem AfterCounters.dealt {asked first : Offer} {counters made : List Offer} {a : Agreement}
    (h : AfterCounters p c .finalized 6 .finalized 6 first made (some a) net)
    (hcp : Parties roster c p) (hfirst : asked.Given first)
    (hmade : List.Forall₂ Offer.Given counters made)
    (ha : a.HasTermsOf (made.getLast?.getD first)) :
    Dealt c.site p.site asked counters net := by
  obtain ⟨w, v, hhold, hw, hv⟩ := h
  have hlength : counters.length = made.length := hmade.length_eq
  refine ⟨v, w, hhold.peer.idle.records, hhold.own.idle.records, ?_, ?_, ?_, ?_, ?_, ?_, ?_, ?_⟩
  · exact ⟨hcp.consumer ▸ hhold.peer.role, hcp.provider ▸ hhold.own.role⟩
  · exact ⟨hv.state_eq, hw.state_eq⟩
  · rw [hv.count, hlength]
  · rw [hw.count, hlength]
  · rw [hv.offers, hlength, List.length_cons]
    omega
  · rw [hw.offers, hlength, List.length_cons, List.length_flatMap]
    simp
    omega
  · exact ⟨first, made, hfirst, hmade, hv.offers, hw.offers⟩
  · exact ⟨a, hv.agreement, hw.agreement, ha.asked (hfirst.last hmade)⟩

section Outcome

variable {i j : Fin n} {request : ContractRequest} {offer : Offer}
  (hids : ∀ k, roster.ids k ≠ "") (hconsumer : roster.Equips i) (hprovider : roster.Equips j)
  (hapart : i ≠ j) (hidle : (net.site i).Idle []) (hidle' : (net.site j).Idle [])
  (hback : net.addresses.get? (roster.connector i).address = some i)
  (hj : net.addresses.get? request.counterPartyAddress = some j)
  (haddress : request.counterPartyAddress ≠ "") (ho : request.offer = some offer)
include hids hconsumer hprovider hapart hidle hidle' hback hj haddress ho

omit hprovider in
theorem inquire_yields (asked : Instant) :
    Yields (atTime asked (inquire roster i request)) net fun v net' => ∃ first,
      offer.Given first ∧ Asks ⟨i, .consumer, v.id⟩ j first v net' ∧ (net'.site j).Idle [] ∧
        net'.addresses.get? (roster.connector i).address = some i := by
  apply atTime_yields
  apply granted_yields
  have hlater : (({ net with now := asked } : Network n).site i).Idle [] := hidle
  apply (initiate_asks hids hconsumer hlater ho haddress hj).mono
  rintro _ t ⟨v, first, rfl, hfirst, hasks, hc⟩
  refine ⟨v, rfl, first, hfirst, hasks, ?_, ?_⟩
  · rw [site_of_confined hc hapart.symm]
    exact hidle'
  · rw [addresses_of_confined hc]
    exact hback

theorem bargain_yields (asked requested : Instant) (counters : List Counter)
    (agreed verified finalized : Instant) (hcount : 6 + 3 * counters.length < 2 ^ 64) :
    Yields (bargain roster i j request asked requested counters agreed verified finalized) net
      fun _ net' => Dealt i j offer (counters.map Counter.offer) net' := by
  apply (inquire_yields hids hconsumer hapart hidle hidle' hback hj haddress ho asked).bind
  rintro v t ⟨first, hfirst, hasks, hidlet, hbackt⟩
  have hopens := (hasks.later requested).opens hids rfl hconsumer hprovider.typed hapart
    (show (({ t with now := requested } : Network n).site j).Idle [] from hidlet) hbackt
  apply (atTime_yields hopens).bind
  rintro _ u ⟨id, hu⟩
  have hcp : Parties roster ⟨i, .consumer, v.id⟩ ⟨j, .provider, id⟩ :=
    ⟨rfl, rfl, hconsumer, hprovider, hids⟩
  have hfound : Yields (Service.get (environment roster.ids i) v.id) u fun found u' =>
      u' = u ∧ ∃ w, found = some w ∧ w.correlationId = id := by
    obtain ⟨w, _, hhold, -⟩ := hu
    have hfind := hhold.own.idle.find?
    rw [hhold.own.id] at hfind
    apply call_yields
    exact ⟨_, _, rfl, rfl, w, hfind, hhold.own.correlationId⟩
  apply hfound.bind
  rintro _ _ ⟨rfl, w, rfl, rfl⟩
  have hafter : AfterCounters ⟨j, .provider, w.correlationId⟩ ⟨i, .consumer, v.id⟩
      .consumerRequested 1 .requested 2 first [] none _ := hu.symm
  apply (hafter.each_countered hcp counters (by simp) (by simp; omega)).bind
  rintro _ u' ⟨made, hmade, state, hstate, hu'⟩
  have hlength : made.length = counters.length := by rw [← hmade.length_eq, List.length_map]
  apply (hu'.closes hcp (hlength ▸ hcount) hstate agreed verified finalized).mono
  rintro _ net' ⟨a, ha, hnet⟩
  exact hnet.dealt hcp hfirst hmade ha

theorem haggle_yields (asked : Instant) (turns : List (Role × Instant))
    (hturns : [.consumer, .provider, .consumer, .provider].Sublist (turns.map Prod.fst)) :
    Yields (haggle roster i j request asked turns) net fun _ net' => Dealt i j offer [] net' := by
  apply (inquire_yields hids hconsumer hapart hidle hidle' hback hj haddress ho asked).bind
  rintro v t ⟨first, hfirst, hasks, hidlet, hbackt⟩
  have hdue : Due roster ⟨i, .consumer, v.id⟩ j first _ t := .asked v t hasks hidlet hbackt
  apply (hdue.turns hids hconsumer hprovider hapart turns hturns).mono
  rintro _ net' (_ | _ | _ | _ | ⟨id, a, _, ha, hafter⟩)
  exact hafter.dealt ⟨rfl, rfl, hconsumer, hprovider, hids⟩ hfirst .nil ha

end Outcome

variable {settings : Vector Settings n} {draws : Nat → Identifier} {i j : Fin n}
  {request : ContractRequest} {offer : Offer}

theorem equips_ofSettings {k : Fin n} (h : (settings.get k).Checked) :
    (Roster.ofSettings settings draws).Equips k := by
  refine ⟨?_, ?_, ?_, fun role => ?_, fun role => ?_⟩
  · rw [connector_ofSettings]
    exact Connector.create_typed ..
  · rw [connector_ofSettings]
    exact h.identity.1
  · rw [address_ofSettings]
    exact h.identity.2
  · rw [address_ofSettings, options_ofSettings]
    rfl
  · rw [options_ofSettings]
    exact fun hzero => h.batchSize (UInt32.toNat_inj.mp hzero)

/-- Two connectors with checked settings, registered and without any records, bargain to the end:
with counter-offers, of which there may be as many as a state count can count, in the order of the
schedule, and without any in every order of rounds in which each manager has its turns. -/
theorem bargains_finalize (hconsumer : (settings.get i).Checked)
    (hprovider : (settings.get j).Checked) (hapart : i ≠ j)
    (hidle : (net.site i).Idle []) (hidle' : (net.site j).Idle [])
    (hi : net.addresses.get? (settings.get i).connectorOrDefault.address = some i)
    (hj : net.addresses.get? (settings.get j).connectorOrDefault.address = some j)
    (haddress : request.counterPartyAddress = (settings.get j).connectorOrDefault.address)
    (ho : request.offer = some offer) (asked : Instant) :
    (∀ (counters : List Counter) (requested agreed verified finalized : Instant),
      6 + 3 * counters.length < 2 ^ 64 →
      Yields (bargain (.ofSettings settings draws) i j request asked requested counters agreed
        verified finalized) net fun _ net' =>
          Dealt i j offer (counters.map Counter.offer) net') ∧
      ∀ turns : List (Role × Instant),
        [.consumer, .provider, .consumer, .provider].Sublist (turns.map Prod.fst) →
        Yields (haggle (.ofSettings settings draws) i j request asked turns) net fun _ net' =>
          Dealt i j offer [] net' := by
  have hids (k : Nat) : (Roster.ofSettings settings draws).ids k ≠ "" := (draws k).text_ne_empty
  have hequips : (Roster.ofSettings settings draws).Equips i := equips_ofSettings hconsumer
  have hequips' : (Roster.ofSettings settings draws).Equips j := equips_ofSettings hprovider
  have hback : net.addresses.get? ((Roster.ofSettings settings draws).connector i).address =
      some i := by rwa [address_ofSettings]
  rw [← haddress] at hj
  have hnonempty : request.counterPartyAddress ≠ "" := haddress ▸ hprovider.identity.2
  constructor
  · intro counters requested agreed verified finalized hcount
    exact bargain_yields hids hequips hequips' hapart hidle hidle' hback hj hnonempty ho asked
      requested counters agreed verified finalized hcount
  · intro turns hturns
    exact haggle_yields hids hequips hequips' hapart hidle hidle' hback hj hnonempty ho asked
      turns hturns

theorem bargains_finalize_of_introduced :
    (partySettings.get 0).Checked ∧ (partySettings.get 1).Checked ∧
      Yields (bargain parties 0 1 offered ⟨0⟩ ⟨1⟩ [⟨{ assetId := "asset" }, ⟨2⟩, ⟨3⟩, ⟨4⟩⟩] ⟨5⟩ ⟨6⟩
        ⟨7⟩) introduced (fun _ net' => Dealt 0 1 {} [{ assetId := "asset" }] net') ∧
      Yields (haggle parties 0 1 offered ⟨0⟩ [(.provider, ⟨1⟩), (.consumer, ⟨2⟩), (.provider, ⟨3⟩),
        (.consumer, ⟨4⟩), (.consumer, ⟨5⟩), (.provider, ⟨6⟩)]) introduced fun _ net' =>
          Dealt 0 1 {} [] net' := by
  have hconsumer : (partySettings.get 0).Checked :=
    ⟨⟨{ connector := some { participantId := "c", address := "http://c" } }, rfl⟩, rfl⟩
  have hprovider : (partySettings.get 1).Checked :=
    ⟨⟨{ connector := some { participantId := "p", address := "http://p" } }, rfl⟩, rfl⟩
  have hidle (k : Fin 2) : (introduced.site k).Idle [] := by
    refine ⟨⟨fun r => ?_, fun r key => ?_, fun r key => ?_⟩, ?_, fun key => ?_⟩
    all_goals match k with
      | 0 | 1 => first | rfl | cases r <;> rfl
  have hi : introduced.addresses.get? (partySettings.get 0).connectorOrDefault.address =
      some 0 := by decide +kernel
  have hj : introduced.addresses.get? (partySettings.get 1).connectorOrDefault.address =
      some 1 := by decide +kernel
  have haddress : offered.counterPartyAddress =
      (partySettings.get 1).connectorOrDefault.address := by decide +kernel
  refine ⟨hconsumer, hprovider, ?_, ?_⟩
  · exact (bargains_finalize hconsumer hprovider (by decide) (hidle 0) (hidle 1) hi hj haddress rfl
      ⟨0⟩).1 _ ⟨1⟩ ⟨5⟩ ⟨6⟩ ⟨7⟩ (by simp)
  · exact (bargains_finalize hconsumer hprovider (by decide) (hidle 0) (hidle 1) hi hj haddress rfl
      ⟨0⟩).2 _ (by decide)

end Network

end ContractNegotiation
