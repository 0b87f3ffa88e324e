import ContractNegotiation.Proofs.Pair

namespace ContractNegotiation

open Negotiation

abbrev Finder (n : Nat) := Fin n → String → Option Negotiation

structure Negotiation.Unanswered (c : Negotiation) : Prop where
  correlationId : c.correlationId = ""
  agreement : c.agreement = none
  state : (c.state = .requesting ∧ c.stateCount = 1) ∨ c.state.isBroken = true

theorem Negotiation.Unanswered.moves {c next : Negotiation} {event : Event} {now : Instant}
    {agreementId : String} (h : c.Unanswered) (hr : c.role = some .consumer)
    (hrow : Row c now agreementId event next none) (hown : event.IsOwn) :
    (c.successor next "").Unanswered := by
  have hstate := h.state
  have out (s : State) (hs : next.stateCode = s.code) (hb : s.isBroken = true) :
      next.state.isBroken = true := by
    rw [state_eq hs, hb]
  refine ⟨?_, ?_, .inr ?_⟩
  · rw [successor_eq]
    simp [hrow.continues.correlationId, h.correlationId]
  · rw [agreement_successor]
    cases hrow with
    | draft _ _ hr' => simp [hr] at hr'
    | agreed => exact hown.elim
    | _ => exact h.agreement
  · rw [state_successor]
    cases hrow with
    | accept _ _ _ hs | check _ _ _ hs => simp [hs, State.isBroken] at hstate
    | cancel => exact out .cancelled rfl rfl
    | decline => exact out .terminating rfl rfl
    | fail => exact out .error rfl rfl
    | draft _ _ hr' | prepare _ _ hr' | counter _ hr' => simp [hr] at hr'
    | requested | offered | agreed | verified | finalized | terminated => exact hown.elim

theorem Negotiation.Unanswered.requesting {c next : Negotiation} {now : Instant}
    {agreementId a b : String} {request : RequestMessage} (h : c.Unanswered)
    (hrow : Row c now agreementId (.process a b) next (some (.request request))) :
    c.state = .requesting ∧ c.stateCount = 1 := by
  refine h.state.resolve_right fun hb => ?_
  cases hrow with
  | request _ _ _ hs | confirm _ _ _ hs => simp [hs, State.isBroken] at hb

structure Partners {n : Nat} (address : Fin n → String) (i : Fin n) (c : Negotiation) (j : Fin n)
    (p : Negotiation) : Prop extends Paired c p where
  consumer : c.role = some .consumer
  provider : p.role = some .provider
  answered : c.correlationId = p.id
  requested : p.correlationId = c.id
  toProvider : c.counterPartyAddress = address j
  toConsumer : p.counterPartyAddress = address i

namespace Finder

variable {n : Nat} {F : Finder n} {i j k : Fin n} {v w x : Negotiation} {id : String}

def set (F : Finder n) (i : Fin n) (w : Negotiation) : Finder n := fun k id =>
  if k = i ∧ id = w.id then some w else F k id

def Owns (F : Finder n) (i : Fin n) (id : String) : Prop := ∀ k v, F k id = some v → k = i

structure Sorted (F : Finder n) : Prop where
  key : ∀ i id v, F i id = some v → v.id = id
  nonempty : ∀ i id v, F i id = some v → id ≠ ""
  owns : ∀ i id v, F i id = some v → F.Owns i id
  sound : ∀ i id v, F i id = some v → v.Sound

theorem set_self (F : Finder n) (i : Fin n) (w : Negotiation) : F.set i w i w.id = some w := by
  simp [set]

theorem set_of_ne (i : Fin n) (hid : id ≠ w.id) : F.set i w k id = F k id := by
  simp [set, hid]

theorem set_eq_self (h : F i w.id = some w) : F.set i w = F := by
  funext k id
  by_cases hk : k = i ∧ id = w.id
  · obtain ⟨rfl, rfl⟩ := hk
    rw [set_self, h]
  · simp [set, hk]

theorem set_comm (hid : v.id ≠ w.id) : (F.set i v).set j w = (F.set j w).set i v := by
  funext k id
  by_cases hv : id = v.id
  · have hw : id ≠ w.id := hv ▸ hid
    simp [set, hw]
  · simp [set, hv]

theorem some_of_set (hown : F.Owns i w.id) (h : F.set i w k id = some x) :
    (k = i ∧ id = w.id ∧ x = w) ∨ (id ≠ w.id ∧ F k id = some x) := by
  by_cases hid : id = w.id
  · subst hid
    by_cases hk : k = i
    · subst hk
      rw [set_self] at h
      exact .inl ⟨rfl, rfl, (Option.some.inj h).symm⟩
    · have hf : F k w.id = some x := by simpa [set, hk] using h
      exact absurd (hown k x hf) hk
  · exact .inr ⟨hid, by rwa [set_of_ne i hid] at h⟩

theorem Sorted.set (h : F.Sorted) (hw : w.Sound) (hid : w.id ≠ "") (hown : F.Owns i w.id) :
    (F.set i w).Sorted where
  key k id v hv := by
    rcases some_of_set hown hv with ⟨-, rfl, rfl⟩ | ⟨-, hv⟩
    · rfl
    · exact h.key k id v hv
  nonempty k id v hv := by
    rcases some_of_set hown hv with ⟨-, rfl, -⟩ | ⟨-, hv⟩
    · exact hid
    · exact h.nonempty k id v hv
  owns k id v hv l x hx := by
    rcases some_of_set hown hv with ⟨rfl, rfl, -⟩ | ⟨hne, hv⟩
    · rcases some_of_set hown hx with ⟨rfl, -⟩ | ⟨hne, -⟩
      · rfl
      · exact absurd rfl hne
    · rw [set_of_ne i hne] at hx
      exact h.owns k id v hv l x hx
  sound k id v hv := by
    rcases some_of_set hown hv with ⟨-, -, rfl⟩ | ⟨-, hv⟩
    · exact hw
    · exact h.sound k id v hv

end Finder

structure Accord {n : Nat} (address : Fin n → String) (F : Finder n) : Prop extends F.Sorted where
  ofConsumer : ∀ i id c, F i id = some c → c.role = some .consumer →
    c.Unanswered ∨ ∃ j p, F j p.id = some p ∧ Partners address i c j p
  ofProvider : ∀ j id p, F j id = some p → p.role = some .provider →
    ∃ i c, F i c.id = some c ∧ Partners address i c j p

namespace Accord

variable {n : Nat} {address : Fin n → String} {F : Finder n} {i j k : Fin n} {c p w x : Negotiation}
  {id : String}

theorem eq_of_id (h : Accord address F) {v : Negotiation} (hv : F i id = some v)
    (hw : F j id = some w) : j = i ∧ w = v := by
  obtain rfl := h.owns i id v hv j w hw
  exact ⟨rfl, Option.some.inj (hw.symm.trans hv)⟩

theorem partner_of_refers (h : Accord address F) (hx : F k x.id = some x)
    (hw : F i w.id = some w) (href : x.correlationId = w.id) :
    Partners address k x i w ∨ Partners address i w k x := by
  -- the record that `x` has for its partner goes by the id of `w`, and so it is `w`
  have hne := h.nonempty i w.id w hw
  obtain ⟨role, hrole, -⟩ := (h.sound k x.id x hx).branch
  cases role with
  | consumer =>
    rcases h.ofConsumer k x.id x hx hrole with hu | ⟨l, y, hy, hxy⟩
    · exact absurd (href.symm.trans hu.correlationId) hne
    · rw [← hxy.answered, href] at hy
      obtain ⟨rfl, rfl⟩ := h.eq_of_id hw hy
      exact .inl hxy
  | provider =>
    obtain ⟨l, y, hy, hyx⟩ := h.ofProvider k x.id x hx hrole
    rw [← hyx.requested, href] at hy
    obtain ⟨rfl, rfl⟩ := h.eq_of_id hw hy
    exact .inr hyx

theorem partners_of_requested (h : Accord address F) (hc : F i c.id = some c)
    (hp : F j p.id = some p) (hr : p.role = some .provider) (href : p.correlationId = c.id) :
    Partners address i c j p := by
  refine (h.partner_of_refers hp hc href).resolve_left fun hpc => ?_
  have hrole := hpc.consumer.symm.trans hr
  simp at hrole

theorem consumer_unique (h : Accord address F) (hp : F j p.id = some p)
    (hcp : Partners address i c j p) (hx : F k x.id = some x) (href : x.correlationId = p.id)
    (hc : F i c.id = some c) : k = i ∧ x = c := by
  rcases h.partner_of_refers hx hp href with hxp | hpx
  · have hid : x.id = c.id := hxp.requested.symm.trans hcp.requested
    rw [hid] at hx
    exact h.eq_of_id hc hx
  · have hrole := hpx.consumer.symm.trans hcp.provider
    simp at hrole

theorem provider_unique (h : Accord address F) (hc : F i c.id = some c)
    (hcp : Partners address i c j p) (hx : F k x.id = some x) (href : x.correlationId = c.id)
    (hp : F j p.id = some p) : k = j ∧ x = p := by
  rcases h.partner_of_refers hx hc href with hxc | hcx
  · have hrole := hxc.provider.symm.trans hcp.consumer
    simp at hrole
  · have hid : x.id = p.id := hcx.answered.symm.trans hcp.answered
    rw [hid] at hx
    exact h.eq_of_id hp hx

theorem not_refers_of_unanswered (h : Accord address F) (hc : F i c.id = some c)
    (hr : c.role = some .consumer) (hu : c.Unanswered) (hx : F k x.id = some x) :
    x.correlationId ≠ c.id := by
  intro href
  rcases h.partner_of_refers hx hc href with hxc | hcx
  · have hrole := hxc.provider.symm.trans hr
    simp at hrole
  · exact h.nonempty k x.id x hx (hcx.answered.symm.trans hu.correlationId)

theorem not_refers_of_fresh (h : Accord address F) (hid : id ≠ "") (hfresh : ∀ k, F k id = none)
    (hx : F k x.id = some x) : x.correlationId ≠ id := by
  intro href
  obtain ⟨role, hrole, -⟩ := (h.sound k x.id x hx).branch
  cases role with
  | consumer =>
    rcases h.ofConsumer k x.id x hx hrole with hu | ⟨l, y, hy, hxy⟩
    · exact hid (href.symm.trans hu.correlationId)
    · rw [← hxy.answered, href, hfresh] at hy
      cases hy
  | provider =>
    obtain ⟨l, y, hy, hyx⟩ := h.ofProvider k x.id x hx hrole
    rw [← hyx.requested, href, hfresh] at hy
    cases hy

theorem kept (h : Accord address F) (G : Finder n) (ids : List String)
    (hsame : ∀ k, ∀ id ∉ ids, G k id = F k id)
    (hother : ∀ k x, F k x.id = some x → x.id ∉ ids → x.correlationId ∉ ids)
    (hx : F k x.id = some x) (hid : x.id ∉ ids) :
    (x.role = some .consumer →
        x.Unanswered ∨ ∃ j p, G j p.id = some p ∧ Partners address k x j p) ∧
      (x.role = some .provider → ∃ i c, G i c.id = some c ∧ Partners address i c k x) := by
  have href := hother k x hx hid
  constructor
  · intro hr
    rcases h.ofConsumer k x.id x hx hr with hu | ⟨j, p, hp, hxp⟩
    · exact .inl hu
    · exact .inr ⟨j, p, by rw [hsame j p.id (hxp.answered ▸ href), hp], hxp⟩
  · intro hr
    obtain ⟨i, c, hc, hcx⟩ := h.ofProvider k x.id x hx hr
    exact ⟨i, c, by rw [hsame i c.id (hcx.requested ▸ href), hc], hcx⟩

theorem setUnanswered (h : Accord address F) (hw : w.Sound) (hid : w.id ≠ "")
    (hown : F.Owns i w.id) (hr : w.role = some .consumer) (hu : w.Unanswered)
    (hother : ∀ k x, F k x.id = some x → x.id ≠ w.id → x.correlationId ≠ w.id) :
    Accord address (F.set i w) := by
  have hkept {k : Fin n} {x : Negotiation} (hx : F k x.id = some x) (hne : x.id ≠ w.id) :=
    h.kept (F.set i w) [w.id] (fun k id hid => Finder.set_of_ne i (by simpa using hid))
      (by simpa using hother) hx (by simpa using hne)
  refine ⟨h.toSorted.set hw hid hown, ?_, ?_⟩
  · intro k id x hx hrole
    rcases Finder.some_of_set hown hx with ⟨-, -, rfl⟩ | ⟨hne, hx⟩
    · exact .inl hu
    · obtain rfl := h.key k id x hx
      exact (hkept hx hne).1 hrole
  · intro k id x hx hrole
    rcases Finder.some_of_set hown hx with ⟨-, -, rfl⟩ | ⟨hne, hx⟩
    · simp [hr] at hrole
    · obtain rfl := h.key k id x hx
      exact (hkept hx hne).2 hrole

theorem setPartners (h : Accord address F) (hcp : Partners address i c j p) (hc : c.Sound)
    (hp : p.Sound) (hci : c.id ≠ "") (hpi : p.id ≠ "") (hne : c.id ≠ p.id) (hco : F.Owns i c.id)
    (hpo : F.Owns j p.id)
    (hother : ∀ k x, F k x.id = some x → x.id ≠ c.id → x.id ≠ p.id →
      x.correlationId ≠ c.id ∧ x.correlationId ≠ p.id) :
    Accord address ((F.set j p).set i c) := by
  have hco' : (F.set j p).Owns i c.id := by
    intro k v hv
    rw [Finder.set_of_ne j hne] at hv
    exact hco k v hv
  have hcf : (F.set j p).set i c i c.id = some c := Finder.set_self ..
  have hpf : (F.set j p).set i c j p.id = some p := by
    rw [Finder.set_of_ne i hne.symm, Finder.set_self]
  have cases_of {k : Fin n} {id : String} {x : Negotiation}
      (hx : (F.set j p).set i c k id = some x) :
      (k = i ∧ x = c) ∨ (k = j ∧ x = p) ∨ (x.id ≠ c.id ∧ x.id ≠ p.id ∧ F k x.id = some x) := by
    rcases Finder.some_of_set hco' hx with ⟨rfl, -, rfl⟩ | ⟨hidc, hx⟩
    · exact .inl ⟨rfl, rfl⟩
    · rcases Finder.some_of_set hpo hx with ⟨rfl, -, rfl⟩ | ⟨hidp, hx⟩
      · exact .inr (.inl ⟨rfl, rfl⟩)
      · obtain rfl := h.key k id x hx
        exact .inr (.inr ⟨hidc, hidp, hx⟩)
  have hkept {k : Fin n} {x : Negotiation} (hx : F k x.id = some x) (hidc : x.id ≠ c.id)
      (hidp : x.id ≠ p.id) := by
    refine h.kept ((F.set j p).set i c) [c.id, p.id] ?_ (by simpa using hother) hx
      (by simp [hidc, hidp])
    intro k id hid
    simp only [List.mem_cons, List.not_mem_nil, or_false, not_or] at hid
    rw [Finder.set_of_ne i hid.1, Finder.set_of_ne j hid.2]
  refine ⟨(h.toSorted.set hp hpi hpo).set hc hci hco', ?_, ?_⟩
  · intro k id x hx hrole
    rcases cases_of hx with ⟨rfl, rfl⟩ | ⟨-, rfl⟩ | ⟨hidc, hidp, hx⟩
    · exact .inr ⟨j, p, hpf, hcp⟩
    · simp [hcp.provider] at hrole
    · exact (hkept hx hidc hidp).1 hrole
  · intro k id x hx hrole
    rcases cases_of hx with ⟨-, rfl⟩ | ⟨rfl, rfl⟩ | ⟨hidc, hidp, hx⟩
    · simp [hcp.consumer] at hrole
    · exact ⟨i, c, hcf, hcp⟩
    · exact (hkept hx hidc hidp).2 hrole

theorem ne_of_partners (h : Accord address F) (hc : F i c.id = some c) (hp : F j p.id = some p)
    (hcp : Partners address i c j p) : c.id ≠ p.id := by
  intro hid
  rw [← hid] at hp
  obtain ⟨-, rfl⟩ := h.eq_of_id hc hp
  have hrole := hcp.consumer.symm.trans hcp.provider
  simp at hrole

theorem replacePartners (h : Accord address F) {c' p' : Negotiation} (hc : F i c.id = some c)
    (hp : F j p.id = some p) (hcp : Partners address i c j p) (hcc : c.SameParty c')
    (hpp : p.SameParty p') (hc' : c'.Sound) (hp' : p'.Sound) (hpair : Paired c' p') :
    Accord address ((F.set j p').set i c') := by
  have hcor : p.id ≠ "" := h.nonempty j p.id p hp
  have hcor' : c.id ≠ "" := h.nonempty i c.id c hc
  have hnew : Partners address i c' j p' := by
    refine ⟨hpair, hcc.role.trans hcp.consumer, hpp.role.trans hcp.provider, ?_, ?_, ?_, ?_⟩
    · rw [hcc.correlationId (hcp.answered ▸ hcor), hpp.id, hcp.answered]
    · rw [hpp.correlationId (hcp.requested ▸ hcor'), hcc.id, hcp.requested]
    · exact hcc.counterPartyAddress.trans hcp.toProvider
    · exact hpp.counterPartyAddress.trans hcp.toConsumer
  refine h.setPartners hnew hc' hp' (hcc.id ▸ hcor') (hpp.id ▸ hcor) ?_ ?_ ?_ ?_
  · rw [hcc.id, hpp.id]
    exact h.ne_of_partners hc hp hcp
  · exact hcc.id ▸ h.owns i c.id c hc
  · exact hpp.id ▸ h.owns j p.id p hp
  · intro k x hx hidc hidp
    rw [hcc.id] at hidc ⊢
    rw [hpp.id] at hidp ⊢
    refine ⟨fun href => hidp ?_, fun href => hidc ?_⟩
    · rw [(h.provider_unique hc hcp hx href hp).2]
    · rw [(h.consumer_unique hp hcp hx href hc).2]

theorem moveConsumer (h : Accord address F) {event : Event} {now : Instant} {agreementId : String}
    {next : Negotiation} (hc : F i c.id = some c) (hr : c.role = some .consumer)
    (hcount : c.stateCount ≠ 0) (hrow : Row c now agreementId event next none)
    (hown : event.IsOwn) (hs : (c.successor next "").Sound) :
    Accord address (F.set i (c.successor next "")) := by
  have hsame := hrow.sameParty ""
  rcases h.ofConsumer i c.id c hc hr with hu | ⟨j, p, hp, hcp⟩
  · have hid : c.id ≠ "" := h.nonempty i c.id c hc
    have hu' := hu.moves hr hrow hown
    refine h.setUnanswered hs (hsame.id ▸ hid) (hsame.id ▸ h.owns i c.id c hc) ?_ hu' ?_
    · exact hsame.role.trans hr
    · intro k x hx _
      rw [hsame.id]
      exact h.not_refers_of_unanswered hc hr hu hx
  · have hpair := hcp.toPaired.consumerMoves "" hr hcount hrow hown
    have hnew := h.replacePartners hc hp hcp hsame (.refl p) hs (h.sound j p.id p hp) hpair
    rwa [Finder.set_eq_self hp] at hnew

theorem moveProvider (h : Accord address F) {event : Event} {now : Instant} {agreementId : String}
    {next : Negotiation} (hp : F j p.id = some p) (hr : p.role = some .provider)
    (hcount : p.stateCount ≠ 0) (hrow : Row p now agreementId event next none)
    (hown : event.IsOwn) (hs : (p.successor next "").Sound) :
    Accord address (F.set j (p.successor next "")) := by
  have hsame := hrow.sameParty ""
  have hps := h.sound j p.id p hp
  obtain ⟨i, c, hc, hcp⟩ := h.ofProvider j p.id p hp hr
  have hpair := hcp.toPaired.providerMoves "" hps.toWellFormed hr hcount hrow hown
  have hnew := h.replacePartners hc hp hcp (.refl c) hsame (h.sound i c.id c hc) hs hpair
  have hf : F.set j (p.successor next "") i c.id = some c := by
    rw [Finder.set_of_ne, hc]
    rw [hsame.id]
    exact h.ne_of_partners hc hp hcp
  rwa [Finder.set_eq_self hf] at hnew

theorem consumerSends (h : Accord address F) (peer : String) {now : Instant}
    {agreementId a b : String}
    {next p' : Negotiation} {m : RemoteMessage} (hc : F i c.id = some c) (hp : F j p.id = some p)
    (hcp : Partners address i c j p) (hrow : Row c now agreementId (.process a b) next (some m))
    (heard : Heard m p p') (hp' : p'.Sound) :
    (c.stateCount ≠ 0 → (c.successor next peer).Sound →
        Accord address ((F.set j p').set i (c.successor next peer))) ∧
      (c.stateCount = 0 → Accord address (F.set j p')) := by
  have hpair := hcp.toPaired.consumerSends peer hcp.consumer hrow heard
  have hpp := heard.sameParty
  have hf : F.set j p' i c.id = some c := by
    rw [Finder.set_of_ne, hc]
    rw [hpp.id]
    exact h.ne_of_partners hc hp hcp
  constructor
  · intro hcount hs
    exact h.replacePartners hc hp hcp (hrow.sameParty peer) hpp hs hp' (hpair.1 hcount)
  · intro hcount
    have hs := h.sound i c.id c hc
    have hnew := h.replacePartners hc hp hcp (.refl c) hpp hs hp' (hpair.2 hcount)
    rwa [Finder.set_eq_self hf] at hnew

theorem providerSends (h : Accord address F) (peer : String) {now : Instant}
    {agreementId a b : String}
    {next c' : Negotiation} {m : RemoteMessage} (hc : F i c.id = some c) (hp : F j p.id = some p)
    (hcp : Partners address i c j p) (hrow : Row p now agreementId (.process a b) next (some m))
    (heard : Heard m c c') (hc' : c'.Sound) :
    (p.stateCount ≠ 0 → (p.successor next peer).Sound →
        Accord address ((F.set i c').set j (p.successor next peer))) ∧
      (p.stateCount = 0 → Accord address (F.set i c')) := by
  have hps := h.sound j p.id p hp
  have hpair := hcp.toPaired.providerSends peer hps hcp.provider hrow heard
  have hcc := heard.sameParty
  have hsame := hrow.sameParty peer
  have hne := h.ne_of_partners hc hp hcp
  constructor
  · intro hcount hs
    rw [Finder.set_comm (by rw [hcc.id, hsame.id]; exact hne)]
    exact h.replacePartners hc hp hcp hcc hsame hc' hs (hpair.1 hcount)
  · intro hcount
    have hnew := h.replacePartners hc hp hcp hcc (.refl p) hc' hps (hpair.2 hcount)
    rwa [Finder.set_eq_self hp] at hnew

theorem initiate (h : Accord address F) (hfresh : ∀ k, F k w.id = none) (hid : w.id ≠ "")
    {a : String} {o : Offer} (hw : w.Starts .consumer .requesting "" a o) :
    Accord address (F.set i w) := by
  have hstate := state_eq hw.stateCode
  refine h.setUnanswered (First.sound (.inl ⟨a, o, hw⟩)) hid ?_ hw.role ?_ ?_
  · intro k v hv
    rw [hfresh] at hv
    cases hv
  · exact ⟨hw.correlationId, hw.agreement, .inl ⟨hstate, hw.stateCount⟩⟩
  · exact fun k x hx _ => h.not_refers_of_fresh hid hfresh hx

theorem request (h : Accord address F) {now : Instant} {agreementId a b : String}
    {next : Negotiation} {request : RequestMessage} {o : Offer} (hc : F i c.id = some c)
    (hr : c.role = some .consumer) (hu : c.Unanswered) (hto : c.counterPartyAddress = address j)
    (hrow : Row c now agreementId (.process a b) next (some (.request request)))
    (ho : request.offer = some o) (hfresh : ∀ k, F k p.id = none) (hid : p.id ≠ "")
    (hp : p.Starts .provider .consumerRequested c.id (address i) o)
    (hs : (c.successor next p.id).Sound) :
    Accord address ((F.set j p).set i (c.successor next p.id)) := by
  have hsame := hrow.sameParty p.id
  have hci : c.id ≠ "" := h.nonempty i c.id c hc
  have hstate := (hu.requesting hrow).1
  have hne : c.id ≠ p.id := fun hne => by
    rw [hne, hfresh] at hc
    cases hc
  refine h.setPartners ?_ hs (First.sound (.inr ⟨c.id, _, o, hci, hp⟩)) (hsame.id ▸ hci) hid
    (hsame.id ▸ hne) (hsame.id ▸ h.owns i c.id c hc) ?_ ?_
  · refine ⟨.first hstate hu.agreement hrow ho hp, hsame.role.trans hr, hp.role, ?_, ?_, ?_, ?_⟩
    · rw [successor_eq]
      simp [hrow.continues.correlationId, hu.correlationId]
    · exact hp.correlationId.trans hsame.id.symm
    · exact hsame.counterPartyAddress.trans hto
    · exact hp.counterPartyAddress
  · intro k v hv
    rw [hfresh] at hv
    cases hv
  · intro k x hx _ _
    rw [hsame.id]
    exact ⟨h.not_refers_of_unanswered hc hr hu hx, h.not_refers_of_fresh hid hfresh hx⟩

end Accord

end ContractNegotiation
