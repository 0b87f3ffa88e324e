import ContractNegotiation.Proofs.Connector

namespace ContractNegotiation

open ContractNegotiation.Action

namespace Negotiation

variable {v w : Negotiation} {event : Event} {agreementId peer : String}

theorem Follows.role (h : v.Follows event agreementId peer w) : w.role = v.role := by
  obtain ⟨now, next, message, ht, rfl⟩ := h
  simpa only [successor_eq] using (row_of_transition ht).continues.role

theorem Follows.correlationId (h : v.Follows event agreementId peer w) :
    w.correlationId = if v.correlationId = "" then peer else v.correlationId := by
  obtain ⟨now, next, message, ht, rfl⟩ := h
  have hc := (row_of_transition ht).continues.correlationId
  simp only [successor_eq, hc]

end Negotiation

namespace Store

variable {Acks : String → String → Prop} {s t : Store} {v w : Negotiation} {event : Event}
  {agreementId peer c : String}

def Taken (s : Store) (c : String) : Prop :=
  ∃ id v, s.find? id = some v ∧ v.role = some .consumer ∧ v.correlationId = c

/-- Consumers' records go by ids that were acknowledged to them, and two providers' records share
one only where a consumer's record has it, too. -/
structure Correlated (Acks : String → String → Prop) (s : Store) : Prop where
  tidy : s.Tidy
  wellFormed : ∀ v ∈ s.records, v.WellFormed
  consumer : ∀ id v, s.find? id = some v → v.role = some .consumer → v.correlationId ≠ "" →
    Acks id v.correlationId
  provider : ∀ id v id' w, s.find? id = some v → s.find? id' = some w →
    v.role = some .provider → w.role = some .provider → v.correlationId = w.correlationId →
    id = id' ∨ s.Taken v.correlationId

theorem Taken.opened (h : s.Taken c) (ho : s.Opened w t) : t.Taken c := by
  obtain ⟨id, v, hv, hrole, hcor⟩ := h
  refine ⟨id, v, ?_, hrole, hcor⟩
  rw [ho.find?, if_neg, hv]
  rintro rfl
  rw [ho.fresh] at hv
  cases hv

theorem Taken.moved (h : s.Taken c) (hc : c ≠ "") (hm : s.Moved v event agreementId peer w t) :
    t.Taken c := by
  obtain ⟨id, x, hx, hrole, hcor⟩ := h
  by_cases hid : id = w.id
  · have hxv : x = v := by
      rw [hid, hm.follows.id, hm.stored] at hx
      exact (Option.some.inj hx).symm
    subst hxv
    refine ⟨id, w, ?_, ?_, ?_⟩
    · rw [hm.find?, if_pos hid]
    · rw [hm.follows.role, hrole]
    · rw [hm.follows.correlationId, if_neg (hcor ▸ hc), hcor]
  · refine ⟨id, x, ?_, hrole, hcor⟩
    rw [hm.find?, if_neg hid, hx]

theorem Correlated.records (h : s.Correlated Acks) (ht : t.records = s.records) :
    t.Correlated Acks := by
  obtain ⟨htidy, hwf, hco, hpr⟩ := h
  refine ⟨?_, ?_, ?_, ?_⟩
  · simpa only [Tidy, ht] using htidy
  · simpa only [ht] using hwf
  · simpa only [find?, ht] using hco
  · simpa only [Taken, find?, ht] using hpr

theorem Correlated.moved (h : s.Correlated Acks) (hm : s.Moved v event agreementId peer w t)
    (htidy : t.Tidy) (hwf : ∀ v ∈ t.records, v.WellFormed) (hpeer : peer ≠ "" → Acks v.id peer) :
    t.Correlated Acks := by
  have before (id : String) (x : Negotiation) (hx : t.find? id = some x)
      (hrole : x.role = some .provider) : ∃ y, s.find? id = some y ∧ y.role = some .provider ∧
        y.correlationId = x.correlationId ∧ y.correlationId ≠ "" := by
    have hcor (y : Negotiation) (hy : s.find? id = some y) (hyr : y.role = some .provider) :
        y.correlationId ≠ "" := (h.wellFormed y (mem_of_find? hy)).correlated (.inl hyr)
    rw [hm.find?] at hx
    split at hx
    · rename_i hid
      obtain rfl := Option.some.inj hx
      have hv : s.find? id = some v := by rw [hid, hm.follows.id, hm.stored]
      have hvr : v.role = some .provider := hm.follows.role ▸ hrole
      refine ⟨v, hv, hvr, ?_, hcor v hv hvr⟩
      rw [hm.follows.correlationId, if_neg (hcor v hv hvr)]
    · exact ⟨x, hx, hrole, rfl, hcor x hx hrole⟩
  refine ⟨htidy, hwf, ?_, ?_⟩
  · intro id x hx hrole hne
    rw [hm.find?] at hx
    split at hx
    · rename_i hid
      obtain rfl := Option.some.inj hx
      rw [hm.follows.correlationId] at hne ⊢
      split
      · rename_i hv
        rw [if_pos hv] at hne
        rw [hid, hm.follows.id]
        exact hpeer hne
      · rename_i hv
        rw [hid, hm.follows.id]
        exact h.consumer v.id v hm.stored (hm.follows.role ▸ hrole) hv
    · exact h.consumer id x hx hrole hne
  · intro id x id' y hx hy hxr hyr hxy
    obtain ⟨x', hx', hxr', hxc, hne⟩ := before id x hx hxr
    obtain ⟨y', hy', hyr', hyc, -⟩ := before id' y hy hyr
    rw [← hxc]
    apply (h.provider id x' id' y' hx' hy' hxr' hyr' ?_).imp_right
    · intro htaken
      exact htaken.moved hne hm
    · rw [hxc, hyc, hxy]

def Vacant (s : Store) (w : Negotiation) : Prop :=
  ∀ v, s.findByCorrelation? w.correlationId = some v → v.role ≠ some .provider

theorem Correlated.taken (h : s.Correlated Acks) {id : String} (hv : s.find? id = some v)
    (hc : v.correlationId ≠ "") (hw : w.correlationId = v.correlationId) (hvacant : s.Vacant w) :
    s.Taken v.correlationId := by
  obtain ⟨x, hx⟩ := exists_findByCorrelation? (mem_of_find? hv) hc
  have hrole := hvacant x (hw ▸ hx)
  obtain ⟨hmem, hcor, -⟩ := correlationId_of_findByCorrelation? hx
  obtain ⟨role, hxr, -⟩ := (h.wellFormed x hmem).branch
  cases role with
  | consumer => exact ⟨x.id, x, h.tidy.find?_of_mem hmem, hxr, hcor⟩
  | provider => exact absurd hxr hrole

theorem Correlated.opened (h : s.Correlated Acks) (ho : s.Opened w t) (hw : w.First)
    (htidy : t.Tidy) (hwf : ∀ v ∈ t.records, v.WellFormed)
    (hvacant : w.role = some .provider → s.Vacant w) : t.Correlated Acks := by
  refine ⟨htidy, hwf, ?_, ?_⟩
  · intro id x hx hrole hne
    rw [ho.find?] at hx
    split at hx
    · obtain rfl := Option.some.inj hx
      rcases hw with ⟨_, _, hw⟩ | ⟨_, _, _, -, hw⟩
      · exact absurd hw.correlationId hne
      · simp [hw.role] at hrole
    · exact h.consumer id x hx hrole hne
  · intro id x id' y hx hy hxr hyr hxy
    have hne : x.correlationId ≠ "" := (hwf x (mem_of_find? hx)).correlated (.inl hxr)
    rw [ho.find?] at hx hy
    split at hx
    · rename_i hid
      obtain rfl := Option.some.inj hx
      split at hy
      · rename_i hid'
        exact .inl (hid.trans hid'.symm)
      · right
        rw [hxy] at hne ⊢
        exact (h.taken hy hne hxy (hvacant hxr)).opened ho
    · split at hy
      · obtain rfl := Option.some.inj hy
        exact .inr ((h.taken hx hne hxy.symm (hvacant hyr)).opened ho)
      · exact (h.provider id x id' y hx hy hxr hyr hxy).imp_right fun htaken => htaken.opened ho

end Store

variable {σ ρ : Type} {f : Focus σ ρ} {ids : Nat → String} {env : Environment σ} {s t : σ}
  {Acks : String → String → Prop}

theorem Store.Welcomes.vacant {st : Store} {m : RemoteMessage} {w : Negotiation}
    (h : st.Welcomes m w) : st.Vacant w := by
  obtain ⟨request, offer, -, -, -, hvacant, hw⟩ := h
  intro v hv
  rw [hw.correlationId] at hv
  exact hvacant v hv

section Writes

variable (hids : ∀ k, ids k ≠ "")
include hids

theorem Focus.Effect.correlated {moves : Negotiation → Event → Prop}
    {opens keeps : Negotiation → Prop} {r : Except Fault (Except Refusal Negotiation)}
    (h : f.Effect ids s moves opens keeps r t) (hs : (f.store s).Correlated Acks)
    (hm : ∀ v event, moves v event → event.Admissible v) (ho : ∀ w, opens w → w.First)
    (hvacant : ∀ w, opens w → w.role = some .provider → (f.store s).Vacant w) :
    (f.store t).Correlated Acks := by
  have he := h.evolves hids hm ho
  have htidy := he.tidy hs.tidy
  have hwf := he.wellFormed hs.wellFormed
  cases h with
  | refused hk => exact hk.store ▸ hs
  | kept v hk => exact hk.store ▸ hs
  | moved v w event agreementId _ _ _ hw =>
    exact hs.moved hw htidy hwf fun h => absurd rfl h
  | opened w k _ _ _ _ hw ho' => exact hs.opened ho' (ho w hw) htidy hwf (hvacant w hw)

theorem Focus.Written.correlated {v next : Negotiation} {event : Event}
    {agreementId peer holder : String} (h : f.Written s v next event agreementId peer holder t)
    (hs : (f.store s).Correlated Acks) (he : event.Admissible v)
    (hid : v.drawsId event = true → ∃ k, agreementId = ids k) (hpeer : peer ≠ "" → Acks v.id peer) :
    (f.store t).Correlated Acks := by
  have hev := h.evolves hids he hid
  rcases h with ⟨hk, -⟩ | ⟨-, hm⟩
  · exact hk.store ▸ hs
  · exact hs.moved hm (hev.tidy hs.tidy) (hev.wellFormed hs.wellFormed) hpeer

structure Focus.Acknowledges (f : Focus σ ρ) (Acks : String → String → Prop) (m : RemoteMessage)
    (s : σ) (r : Except Fault DispatchResult) (t : σ) : Prop where
  evolves : (f.store s).Evolves (f.store t)
  correlated : (f.store s).Correlated Acks → (f.store t).Correlated Acks
  acks : ∀ peer, r = .ok (.ok peer) → Acks m.processId peer

theorem Focus.Turned.correlated {m : Manager} {n : Negotiation}
    (h : f.Turned ids m (f.Acknowledges Acks) s n t) (hs : (f.store s).Correlated Acks) :
    (f.store t).Correlated Acks := by
  have hno (peer : String) (he : peer = "") (hne : peer ≠ "") : Acks n.id peer := absurd he hne
  cases h with
  | passed hk => exact hk.store ▸ hs
  | moved agreementId now next _ hid hw => exact hw.correlated hids hs trivial hid (hno "" rfl)
  | sent agreementId now next message peer hk htr hid hm hw =>
    have ht := hm.correlated (hk.store ▸ hs)
    apply hw.correlated hids ht trivial hid
    intro _
    have hacks := hm.acks peer rfl
    rwa [(Negotiation.row_of_transition htr).routing.1] at hacks
  | failed message r cause next hk _ hm hw =>
    have ht := hm.correlated (hk.store ▸ hs)
    exact hw.correlated hids ht trivial (fun hd => by cases hd) (hno "" rfl)
  | waits message r hk _ hm hu =>
    rw [hu.store]
    exact hm.correlated (hk.store ▸ hs)

variable (h : env.Lawful ids f)
include h

theorem Connector.Serves.correlated {c : Connector} (hc : c.Typed)
    (hs : (f.store s).Correlated Acks) (hx : c.Serves env s t) : (f.store t).Correlated Acks := by
  have writes {α : Type} {x : Action σ α}
      (hx : Ends x s fun _ t => (f.store t).Correlated Acks) :
      (f.store (x.after s)).Correlated Acks := hx.after
  have reads {α : Type} {x : Action σ α} (hx : f.Harmless x) :
      (f.store (x.after s)).Correlated Acks :=
    writes ((hx s).mono fun _ _ ht => ht.store ▸ hs)
  cases hx with
  | get id => exact reads (Service.get_harmless h id)
  | query q => exact reads (Service.query_harmless h q)
  | state id => exact reads (Service.state_harmless h id)
  | agreementOf id => exact reads (Service.agreementOf_harmless h id)
  | findAgreement id => exact reads (Service.findAgreement_harmless h id)
  | initiate request =>
    refine writes ((Service.initiate_ends h c hc request).mono fun r t ht => ?_)
    apply ht.correlated hids hs (fun _ _ h => h.elim) fun w hw => .inl hw
    rintro w ⟨_, _, hw⟩ hrole
    simp [hw.role] at hrole
  | counterOffer id offer =>
    refine writes ((Service.counterOffer_ends h c hc id offer).mono fun r t ht => ?_)
    apply ht.correlated hids hs _ (fun _ h => h.elim) fun _ h => h.elim
    rintro v event ⟨-, -, offer, rfl⟩
    trivial
  | cancel id => exact reads (Service.cancel_harmless h c id)
  | decline id reason => exact reads (Service.decline_harmless h c id reason)
  | receive m token =>
    refine writes ((Service.receive_ends h c hc hs.tidy m token).mono ?_)
    rintro r t (⟨-, hk⟩ | ⟨r', -, ht⟩)
    · exact hk.store ▸ hs
    · exact ht.correlated hids hs (fun _ _ h => h.admissible) (fun _ h => h.first)
        fun _ h _ => h.vacant
  | finalized m =>
    have hm := Service.correlated_ends h hs.tidy hc.consumer (.event m)
    refine writes ((Service.call_effect h _ _ hm).mono fun r t ht => ?_)
    exact ht.correlated hids hs (fun _ _ h => h.admissible) (fun _ h => h.first)
      fun _ h _ => h.vacant
  | enqueue role command =>
    exact reads fun s => ((c.manager role).enqueue_quiet h command s).mono fun _ _ ht => ht.1

theorem Manager.correlating (m : Manager) {send : Transport σ} (hs : (f.store s).Tidy)
    (hsend : ∀ message t, (f.store t).Tidy →
      Ends (send message) t (f.Acknowledges Acks message t)) :
    Preserved m env send f fun ns t => ((f.store s).Evolves (f.store t) ∧
      ∀ n ∈ ns, (f.store t).Includes n) ∧ (f.store t).Correlated Acks := by
  have hevolves (message : RemoteMessage) (t : σ) (ht : (f.store t).Tidy) :
      (f.store t).Evolves (f.store ((send message).after t)) := by
    have hx := (hsend message t ht).mono fun _ _ ha => ha.evolves
    exact hx.after
  have hold := m.evolving hids h hs hevolves
  have rest {x : Action σ Unit} {t : σ} (ht : (f.store t).Correlated Acks)
      (hx : Ends x t fun _ u => (f.store u).records = (f.store t).records) :
      Ends x t fun _ u => (f.store u).Correlated Acks :=
    hx.mono fun _ _ hu => ht.records hu
  constructor
  · exact fun ns others t ht hsub => ⟨hold.drop ns others t ht.1 hsub, ht.2⟩
  · exact fun ns t u ht hk => ⟨hold.quiet ns t u ht.1 hk, hk.store ▸ ht.2⟩
  · intro c t ht
    apply (hold.command c t ht.1).and
    apply (m.applyCommand_ends h c).mono
    rintro r u (hk | ⟨v, w, agreementId, -, -, hm⟩)
    · exact hk.store ▸ ht.2
    · have hev : (f.store t).Evolves (f.store u) := .single (Manager.write_of_command hm)
      exact ht.2.moved hm (hev.tidy ht.2.tidy) (hev.wellFormed ht.2.wellFormed)
        fun h => absurd rfl h
  · intro state t ht
    apply ((hold.lease state t ht.1).and (h.lease state m.role _ _ t)).mono
    intro r u hu
    have hrec : (f.store u).records = (f.store t).records := by
      rcases hu.2.2 with ⟨hk, -⟩ | ⟨ns, now, -, hl⟩
      · rw [hk]
      · exact (Store.leases_of_leaseNext hl).records
    cases r with
    | ok ns => exact ⟨hu.1, ht.2.records hrec⟩
    | error fault => exact ⟨hu.1, ht.2.records hrec⟩
  · intro n ns t ht
    apply (hold.release n ns t ht.1).and
    exact rest ht.2 ((m.release_ends h n.id).mono fun _ _ hu => hu.records)
  · intro n ns t ht
    apply (hold.turn n ns t ht.1).and
    have hn := ht.1.2 n (List.mem_cons_self ..)
    have hsends (message : RemoteMessage) (u : σ) (hu : f.Keeps t u) :
        Ends (send message) u fun r u' =>
          f.Acknowledges Acks message u r u' ∧ (f.store u').Includes n := by
      apply (hsend message u (hu.store ▸ ht.2.tidy)).mono
      intro r u' ha
      exact ⟨ha, ha.evolves.includes (hu.store ▸ hn)⟩
    apply (processLeased_ends h hsends hn).mono
    rintro r u ⟨u', hu', hr⟩
    exact (hu'.correlated hids ht.2).records hr.records

theorem Manager.runOnce_correlated (m : Manager) {send : Transport σ}
    (hs : (f.store s).Correlated Acks)
    (hsend : ∀ message t, (f.store t).Tidy →
      Ends (send message) t (f.Acknowledges Acks message t)) :
    (f.store ((m.runOnce env send).after s)).Correlated Acks := by
  have hr := runOnce_ends h (m.correlating hids h hs.tidy hsend) ⟨⟨.refl, by simp⟩, hs⟩
  have hc : Ends (m.runOnce env send) s fun _ t => (f.store t).Correlated Acks :=
    hr.mono fun _ _ ht => ht.2
  exact hc.after

end Writes

namespace Network

variable {n : Nat} {net net' : Network n} {i : Fin n}

/-- Runs of the connector at `i` whose dispatcher acknowledges a message only with process ids that
`Acks` has for the message's own. -/
inductive Corresponds (roster : Roster n) (i : Fin n) (Acks : String → String → Prop) :
    Network n → Network n → Prop where
  | done (net : Network n) : Corresponds roster i Acks net net
  | call {net net' net'' : Network n} : Corresponds roster i Acks net net' →
      (roster.connector i).Serves (environment roster.ids i) net' net'' →
      Corresponds roster i Acks net net''
  | round {net net' : Network n} (role : Role) (send : Transport (Network n)) :
      Corresponds roster i Acks net net' →
      (∀ message s, Corresponds roster i Acks s ((send message).after s)) →
      (∀ message s, Ends (send message) s fun r _ =>
        ∀ peer, r = .ok (.ok peer) → Acks message.processId peer) →
      Corresponds roster i Acks net ((((roster.connector i).manager role).runOnce
        (environment roster.ids i) send).after net')
  | elsewhere {net net' net'' : Network n} : Corresponds roster i Acks net net' →
      net''.site i = net'.site i → Corresponds roster i Acks net net''

theorem Corresponds.runs {roster : Roster n} (h : Corresponds roster i Acks net net') :
    Runs roster i net net' := by
  induction h with
  | done net => exact .done net
  | call _ hx ih => exact ih.call hx
  | round role send _ _ _ ih ihsend => exact ih.round role send ihsend
  | elsewhere _ he ih => exact ih.elsewhere he

variable {connectors : Vector Connector n} {draws : Nat → Identifier}

theorem Corresponds.correlated (hc : (connectors.get i).Typed)
    (h : Corresponds (.drawing connectors draws) i Acks net net')
    (hs : (net.site i).store.Correlated Acks) : (net'.site i).store.Correlated Acks := by
  have hids (k : Nat) : (draws k).text ≠ "" := (draws k).text_ne_empty
  have hlaw := environment_lawful (fun k => (draws k).text) i
  induction h with
  | done => exact hs
  | call _ hx ih => exact hx.correlated hids hlaw hc (ih hs)
  | round role send _ hsend hacks ih ihsend =>
    apply Manager.runOnce_correlated hids hlaw _ (ih hs)
    intro message t ht
    apply (ends_after.and (hacks message t)).mono
    rintro r u ⟨rfl, ha⟩
    exact ⟨(hsend message t).runs.evolves hc ht, ihsend message t, ha⟩
  | elsewhere _ he ih => exact he ▸ ih hs

/-- If different negotiations are acknowledged by different process ids, then a correlation id
stands for one record, unless a consumer's record has taken it from an acknowledgement and a
provider's record was opened under it. -/
theorem correlation_unique (hc : (connectors.get i).Typed)
    (hacks : ∀ id id' peer, peer ≠ "" → Acks id peer → Acks id' peer → id = id')
    (hstart : (net.site i).store.records = [])
    (h : Corresponds (.drawing connectors draws) i Acks net net') {v w : Negotiation}
    (hv : v ∈ (net'.site i).store.records) (hw : w ∈ (net'.site i).store.records)
    (hne : v.correlationId ≠ "") (hvw : v.correlationId = w.correlationId) :
    v = w ∨ ∃ c ∈ (net'.site i).store.records, ∃ p ∈ (net'.site i).store.records,
      c.role = some .consumer ∧ p.role = some .provider ∧
        c.correlationId = v.correlationId ∧ p.correlationId = v.correlationId := by
  have hempty : (net.site i).store.Correlated Acks := by
    refine ⟨Store.tidy_of_records hstart, ?_, ?_, ?_⟩
    all_goals simp [Store.find?, hstart]
  have hs := h.correlated hc hempty
  have hvf := hs.tidy.find?_of_mem hv
  have hwf := hs.tidy.find?_of_mem hw
  have same (hid : v.id = w.id) : v = w := by
    rw [hid, hwf] at hvf
    exact (Option.some.inj hvf).symm
  obtain ⟨vrole, hvr, -⟩ := (hs.wellFormed v hv).branch
  obtain ⟨wrole, hwr, -⟩ := (hs.wellFormed w hw).branch
  cases vrole with
  | consumer =>
    cases wrole with
    | consumer =>
      have hva := hs.consumer v.id v hvf hvr hne
      have hwa := hs.consumer w.id w hwf hwr (hvw ▸ hne)
      exact .inl (same (hacks v.id w.id _ hne hva (hvw ▸ hwa)))
    | provider => exact .inr ⟨v, hv, w, hw, hvr, hwr, rfl, hvw.symm⟩
  | provider =>
    cases wrole with
    | consumer => exact .inr ⟨w, hw, v, hv, hwr, hvr, hvw.symm, rfl⟩
    | provider =>
      rcases hs.provider v.id v w.id w hvf hwf hvr hwr hvw with hid | ⟨id, c, hcf, hcr, hcor⟩
      · exact .inl (same hid)
      · exact .inr ⟨c, Store.mem_of_find? hcf, v, hv, hcr, hvr, hcor, rfl⟩

def echo (m : RemoteMessage) : Action (Network 1) DispatchResult :=
  pure (.ok ("peer-" ++ m.processId))

def Echoes (id peer : String) : Prop := peer = "peer-" ++ id

def echoed : Network 1 :=
  ((loneConnector.manager .consumer).runOnce (environment loneRoster.ids (Fin.last 0)) echo).after
    asked

def crossed : Network 1 :=
  (Service.receive loneConnector (environment loneRoster.ids (Fin.last 0))
    (.request {
      processId := "peer-" ++ loneRoster.ids 0
      connectorId := "stranger"
      callbackAddress := "http://stranger"
      offer := some {} }) {}).after echoed

theorem echoes_injective (id id' peer : String) (h : Echoes id peer) (h' : Echoes id' peer) :
    id = id' := by
  have he : "peer-" ++ id = "peer-" ++ id' := h.symm.trans h'
  simpa using he

theorem corresponds_crossed : Corresponds loneRoster 0 Echoes vacant crossed := by
  have hasked : Corresponds loneRoster 0 Echoes vacant asked :=
    (Corresponds.done _).call (.initiate _ _)
  have hechoed : Corresponds loneRoster 0 Echoes vacant echoed := by
    apply hasked.round .consumer echo
    · exact fun _ s => .done s
    · intro message s peer hr
      cases hr
      rfl
  exact hechoed.call (.receive _ _ _)

theorem shared_crossed : ∃ v ∈ (crossed.site 0).store.records,
    ∃ w ∈ (crossed.site 0).store.records,
      v ≠ w ∧ v.correlationId ≠ "" ∧ v.correlationId = w.correlationId := by
  decide +kernel

theorem correlation_unique_of_crossed : ∃ v ∈ (crossed.site 0).store.records,
    ∃ w ∈ (crossed.site 0).store.records, v.correlationId ≠ "" ∧
      v.correlationId = w.correlationId ∧ (v = w ∨
        ∃ c ∈ (crossed.site 0).store.records, ∃ p ∈ (crossed.site 0).store.records,
          c.role = some .consumer ∧ p.role = some .provider ∧
            c.correlationId = v.correlationId ∧ p.correlationId = v.correlationId) := by
  obtain ⟨v, hv, w, hw, -, hne, hvw⟩ := shared_crossed
  have hacks (id id' peer : String) (_ : peer ≠ "") := echoes_injective id id' peer
  exact ⟨v, hv, w, hw, hne, hvw,
    correlation_unique lone_typed hacks records_vacant corresponds_crossed hv hw hne hvw⟩

theorem correlation_shared : ¬ ∀ (Acks : String → String → Prop) (net : Network 1),
    (∀ id id' peer, peer ≠ "" → Acks id peer → Acks id' peer → id = id') →
      Corresponds loneRoster 0 Acks vacant net → ∀ v ∈ (net.site 0).store.records,
        ∀ w ∈ (net.site 0).store.records, v.correlationId ≠ "" →
          v.correlationId = w.correlationId → v = w := by
  intro h
  obtain ⟨v, hv, w, hw, hvw, hne, hcor⟩ := shared_crossed
  have hacks (id id' peer : String) (_ : peer ≠ "") := echoes_injective id id' peer
  exact hvw (h Echoes crossed hacks corresponds_crossed v hv w hw hne hcor)

end Network

end ContractNegotiation
