import ContractNegotiation.Proofs.Network
import ContractNegotiation.Proofs.Record

namespace ContractNegotiation

open ContractNegotiation.Action

inductive Connector.Serves {σ : Type} (c : Connector) (env : Environment σ) : σ → σ → Prop where
  | get (id : String) (s : σ) : Serves c env s ((Service.get env id).after s)
  | query (q : Query.Spec) (s : σ) : Serves c env s ((Service.query env q).after s)
  | state (id : String) (s : σ) : Serves c env s ((Service.state env id).after s)
  | agreementOf (id : String) (s : σ) : Serves c env s ((Service.agreementOf env id).after s)
  | findAgreement (id : String) (s : σ) : Serves c env s ((Service.findAgreement env id).after s)
  | initiate (request : ContractRequest) (s : σ) :
      Serves c env s ((Service.initiate c env request).after s)
  | counterOffer (id : String) (offer : Offer) (s : σ) :
      Serves c env s ((Service.counterOffer c env id offer).after s)
  | cancel (id : String) (s : σ) : Serves c env s ((Service.cancel c env id).after s)
  | decline (id reason : String) (s : σ) :
      Serves c env s ((Service.decline c env id reason).after s)
  | receive (m : RemoteMessage) (token : ClaimToken) (s : σ) :
      Serves c env s ((Service.receive c env m token).after s)
  | finalized (m : EventMessage) (s : σ) : Serves c env s ((Service.finalized c env m).after s)
  | enqueue (role : Role) (command : Command) (s : σ) :
      Serves c env s (((c.manager role).enqueue env command).after s)

variable {σ ρ : Type} {f : Focus σ ρ} {ids : Nat → String} {env : Environment σ} {s t : σ}

theorem Store.Receives.admissible {st : Store} {m : RemoteMessage} {v : Negotiation}
    {event : Event} (h : st.Receives m v event) : event.Admissible v := by
  obtain ⟨hf, role, -, hm⟩ := h
  obtain ⟨-, hc, hne⟩ := Store.correlationId_of_findByCorrelation? hf
  have hv : v.correlationId ≠ "" := hc ▸ hne
  cases hm with
  | agreement m hid => exact ⟨hv, hid⟩
  | _ => exact hv

theorem Store.Welcomes.first {st : Store} {m : RemoteMessage} {w : Negotiation}
    (h : st.Welcomes m w) : w.First := by
  obtain ⟨request, offer, -, -, hid, -, hw⟩ := h
  exact .inr ⟨_, _, offer, hid, hw⟩

section Writes

variable (hids : ∀ k, ids k ≠ "")
include hids

theorem Focus.Effect.evolves {moves : Negotiation → Event → Prop} {opens keeps : Negotiation → Prop}
    {r : Except Fault (Except Refusal Negotiation)} (h : f.Effect ids s moves opens keeps r t)
    (hm : ∀ v event, moves v event → event.Admissible v) (ho : ∀ w, opens w → w.First) :
    (f.store s).Evolves (f.store t) := by
  cases h with
  | refused hk => exact hk.store ▸ .refl
  | kept v hk => exact hk.store ▸ .refl
  | moved v w event agreementId hc hv hid hw =>
    refine .single (.moved v w event agreementId "" hw (hm v event hv) fun hd => ?_)
    obtain ⟨k, rfl⟩ := hid hd
    exact hids k
  | opened w k hc _ _ _ hw ho' => exact .single (.opened w ho' (ho w hw))

theorem Focus.Written.evolves {v next : Negotiation} {event : Event}
    {agreementId peer holder : String} (h : f.Written s v next event agreementId peer holder t)
    (he : event.Admissible v) (hid : v.drawsId event = true → ∃ k, agreementId = ids k) :
    (f.store s).Evolves (f.store t) := by
  rcases h with ⟨hk, -⟩ | ⟨-, hm⟩
  · exact hk.store ▸ .refl
  · refine .single (.moved v _ event agreementId peer hm he fun hd => ?_)
    obtain ⟨k, rfl⟩ := hid hd
    exact hids k

theorem Focus.Turned.evolves {m : Manager} {n : Negotiation}
    {Sends : RemoteMessage → σ → Except Fault DispatchResult → σ → Prop}
    (hsend : ∀ message r s t, Sends message s r t → (f.store s).Evolves (f.store t))
    (h : f.Turned ids m Sends s n t) : (f.store s).Evolves (f.store t) := by
  cases h with
  | passed hk => exact hk.store ▸ .refl
  | moved agreementId now next _ hid hw => exact hw.evolves hids trivial hid
  | sent agreementId now next message peer hk _ hid hm hw =>
    rw [← hk.store]
    exact (hsend _ _ _ _ hm).trans (hw.evolves hids trivial hid)
  | failed message r cause next hk _ hm hw =>
    rw [← hk.store]
    exact (hsend _ _ _ _ hm).trans (hw.evolves hids trivial fun hd => by cases hd)
  | waits message r hk _ hm hu =>
    rw [← hk.store, hu.store]
    exact hsend _ _ _ _ hm

variable (h : env.Lawful ids f)
include h

theorem Connector.Serves.evolves {c : Connector} (hc : c.Typed) (hs : (f.store s).Tidy)
    (hx : c.Serves env s t) : (f.store s).Evolves (f.store t) := by
  have writes {α : Type} {x : Action σ α}
      (hx : Ends x s fun _ t => (f.store s).Evolves (f.store t)) :
      (f.store s).Evolves (f.store (x.after s)) := hx.after
  have reads {α : Type} {x : Action σ α} (hx : f.Harmless x) :
      (f.store s).Evolves (f.store (x.after s)) :=
    writes ((hx s).mono fun _ _ ht => ht.store ▸ .refl)
  cases hx with
  | get id => exact reads (Service.get_harmless h id)
  | query q => exact reads (Service.query_harmless h q)
  | state id => exact reads (Service.state_harmless h id)
  | agreementOf id => exact reads (Service.agreementOf_harmless h id)
  | findAgreement id => exact reads (Service.findAgreement_harmless h id)
  | initiate request =>
    refine writes ((Service.initiate_ends h c hc request).mono fun r t ht => ?_)
    exact ht.evolves hids (fun _ _ h => h.elim) fun w hw => .inl hw
  | counterOffer id offer =>
    refine writes ((Service.counterOffer_ends h c hc id offer).mono fun r t ht => ?_)
    refine ht.evolves hids ?_ fun _ h => h.elim
    rintro v event ⟨-, -, offer, rfl⟩
    trivial
  | cancel id => exact reads (Service.cancel_harmless h c id)
  | decline id reason => exact reads (Service.decline_harmless h c id reason)
  | receive m token =>
    refine writes ((Service.receive_ends h c hc hs m token).mono ?_)
    rintro r t (⟨-, hk⟩ | ⟨r', -, ht⟩)
    · exact hk.store ▸ .refl
    · exact ht.evolves hids (fun _ _ h => h.admissible) fun _ h => h.first
  | finalized m =>
    have hm := Service.correlated_ends h hs hc.consumer (.event m)
    refine writes ((Service.call_effect h _ _ hm).mono fun r t ht => ?_)
    exact ht.evolves hids (fun _ _ h => h.admissible) fun _ h => h.first
  | enqueue role command =>
    exact reads fun s => ((c.manager role).enqueue_quiet h command s).mono fun _ _ ht => ht.1

theorem Manager.evolving (m : Manager) {send : Transport σ} (hs : (f.store s).Tidy)
    (hsend : ∀ message t, (f.store t).Tidy →
      (f.store t).Evolves (f.store ((send message).after t))) :
    Preserved m env send f fun ns t =>
      (f.store s).Evolves (f.store t) ∧ ∀ n ∈ ns, (f.store t).Includes n where
  drop ns others t ht hsub := ⟨ht.1, fun n hn => ht.2 n (hsub.subset hn)⟩
  quiet ns t u ht hk := by rwa [hk.store]
  command c t ht := by
    refine (m.applyCommand_ends h c).mono ?_
    rintro r u (hk | ⟨v, w, agreementId, hc, -, hm⟩)
    · exact ⟨hk.store ▸ ht.1, by simp⟩
    · exact ⟨ht.1.tail (write_of_command hm), by simp⟩
  lease state t ht := by
    refine (h.lease state m.role m.options.batchSize m.leaseHolder t).mono ?_
    rintro (fault | ns) u ⟨-, ⟨hu, hn⟩ | ⟨ns', now, hr, hl⟩⟩
    · exact ⟨hu ▸ ht.1, by simp⟩
    · cases hr
    · exact absurd rfl (hn ns)
    · obtain rfl := Except.ok.inj hr
      have hl := Store.leases_of_leaseNext hl
      refine ⟨ht.1.tail (.leases hl.records), fun n hn => ?_⟩
      have hf := (ht.1.tidy hs).find?_of_mem (hl.stored n hn)
      exact Store.includes_of_find? (by simpa only [Store.find?, hl.records] using hf)
  release n ns t ht := by
    refine (m.release_ends h n.id).mono fun r u hu => ?_
    have hw := Store.Write.leases hu.records
    exact ⟨ht.1.tail hw, fun n hn => hw.includes (ht.2 n (List.mem_cons_of_mem _ hn))⟩
  turn n ns t ht := by
    have hsends (message : RemoteMessage) (u : σ) (hu : f.Keeps t u) :
        Ends (send message) u fun _ u' =>
          (f.store u).Evolves (f.store u') ∧ (f.store u').Includes n := by
      refine ends_after.mono ?_
      rintro r u' rfl
      have he := hsend message u (hu.store ▸ ht.1.tidy hs)
      exact ⟨he, he.includes (hu.store ▸ ht.2 n (List.mem_cons_self ..))⟩
    refine (processLeased_ends h hsends (ht.2 n (List.mem_cons_self ..))).mono ?_
    rintro r u ⟨u', hu', hr⟩
    have he : (f.store t).Evolves (f.store u) :=
      (hu'.evolves hids fun _ _ _ _ h => h).tail (.leases hr.records)
    exact ⟨ht.1.trans he, fun n hn => he.includes (ht.2 n (List.mem_cons_of_mem _ hn))⟩

theorem Manager.runOnce_evolves {m : Manager} {send : Transport σ} (hs : (f.store s).Tidy)
    (hsend : ∀ message t, (f.store t).Tidy →
      (f.store t).Evolves (f.store ((send message).after t))) :
    (f.store s).Evolves (f.store ((m.runOnce env send).after s)) := by
  have hr := runOnce_ends h (m.evolving hids h hs hsend) ⟨.refl, by simp⟩
  have he : Ends (m.runOnce env send) s fun _ t => (f.store s).Evolves (f.store t) :=
    hr.mono fun _ _ ht => ht.1
  exact he.after

end Writes

namespace Network

variable {n : Nat} {net net' net'' : Network n} {i : Fin n}

/-- Runs of the connector at `i`. Its dispatcher answers as it likes, and may call the connector
while it is asked to send; in between, anything may happen to the rest of the network. -/
inductive Runs (roster : Roster n) (i : Fin n) : Network n → Network n → Prop where
  | done (net : Network n) : Runs roster i net net
  | call {net net' net'' : Network n} : Runs roster i net net' →
      (roster.connector i).Serves (environment roster.ids i) net' net'' →
      Runs roster i net net''
  | round {net net' : Network n} (role : Role) (send : Transport (Network n)) :
      Runs roster i net net' → (∀ message s, Runs roster i s ((send message).after s)) →
      Runs roster i net ((((roster.connector i).manager role).runOnce (environment roster.ids i)
        send).after net')
  | elsewhere {net net' net'' : Network n} : Runs roster i net net' →
      net''.site i = net'.site i → Runs roster i net net''

theorem Runs.evolves {connectors : Vector Connector n} {draws : Nat → Identifier}
    (hc : (connectors.get i).Typed) (h : Runs (.drawing connectors draws) i net net')
    (hs : (net.site i).store.Tidy) : (net.site i).store.Evolves (net'.site i).store := by
  have hids (k : Nat) : (draws k).text ≠ "" := (draws k).text_ne_empty
  have hlaw := environment_lawful (fun k => (draws k).text) i
  induction h with
  | done => exact .refl
  | call _ hx ih => exact (ih hs).trans (hx.evolves hids hlaw hc ((ih hs).tidy hs))
  | round role send _ _ ih ihsend =>
    exact (ih hs).trans (Manager.runOnce_evolves hids hlaw ((ih hs).tidy hs) ihsend)
  | elsewhere _ he ih => exact he ▸ ih hs

def loneConnector : Connector := .create "c" "http://c" {} "first" "second"

def loneRoster : Roster 1 := .drawing #v[loneConnector] fun k => ⟨.replicate 16 (UInt8.ofNat k)⟩

def vacant : Network 1 := { sites := #v[{}] }

theorem lone_typed : (#v[loneConnector].get 0).Typed := ⟨rfl, rfl⟩

def asked : Network 1 :=
  (Service.initiate loneConnector (environment loneRoster.ids (Fin.last 0))
    { counterPartyAddress := "http://p", offer := some {} }).after vacant

def sent : Network 1 :=
  ((loneConnector.manager .consumer).runOnce (environment loneRoster.ids (Fin.last 0)) fun _ =>
    pure (.ok "peer")).after asked

theorem records_vacant : (vacant.site 0).store.records = [] := rfl

theorem runs_asked : Runs loneRoster 0 vacant asked := (Runs.done _).call (.initiate _ _)

theorem runs_sent : Runs loneRoster 0 asked sent :=
  (Runs.done _).round .consumer _ fun _ s => .done s

theorem wellFormed_of_runs {connectors : Vector Connector n} {draws : Nat → Identifier}
    (hc : (connectors.get i).Typed) (hstart : (net.site i).store.records = [])
    (h : Runs (.drawing connectors draws) i net net') :
    ∀ v ∈ (net'.site i).store.records, v.WellFormed :=
  (h.evolves hc (Store.tidy_of_records hstart)).wellFormed (by simp [hstart])

def drafted : Network 1 :=
  ((loneConnector.manager .provider).runOnce (environment loneRoster.ids (Fin.last 0)) fun _ =>
    pure (.ok "peer")).after <|
      (Service.receive loneConnector (environment loneRoster.ids (Fin.last 0))
        (.request { processId := "process", connectorId := "q", callbackAddress := "http://q"
                    offer := some {} }) {}).after sent

def agreed : Network 1 :=
  (Service.receive loneConnector (environment loneRoster.ids (Fin.last 0))
    (.agreement { processId := "peer", agreement := some { id := "agreement" } }) {}).after drafted

theorem runs_drafted : Runs loneRoster 0 vacant drafted :=
  ((runs_asked.round .consumer _ fun _ s => .done s).call (.receive _ _ _)).round .provider _
    fun _ s => .done s

theorem wellFormed_of_agreed :
    ((agreed.site 0).store.records.map fun v => (v.role, v.state, v.agreement.isSome)) =
        [(some .provider, .agreed, true), (some .consumer, .agreed, true)] ∧
      ∀ v ∈ (agreed.site 0).store.records, v.WellFormed :=
  ⟨by decide +kernel, wellFormed_of_runs lone_typed records_vacant
    (runs_drafted.call (.receive _ _ _))⟩

/-- A stored record stays, and only grows. Its state count is zero after the last possible
version. -/
theorem grows_of_runs {connectors : Vector Connector n} {draws : Nat → Identifier}
    (hc : (connectors.get i).Typed) (hs : (net.site i).store.Tidy)
    (hopen : ∀ v ∈ (net.site i).store.records, v.Open)
    (h : Runs (.drawing connectors draws) i net net')
    (h' : Runs (.drawing connectors draws) i net' net'') {id : String} {v : Negotiation}
    (hv : (net'.site i).store.find? id = some v) :
    ∃ w, (net''.site i).store.find? id = some w ∧ v.Grows w ∧
      (w.stateCount ≠ 0 → v.stateCount ≤ w.stateCount) := by
  have he := h.evolves hc hs
  obtain ⟨w, hw, hg⟩ := (h'.evolves hc (he.tidy hs)).grows (he.isOpen hopen) hv
  exact ⟨w, hw, hg, hg.stateCount_le⟩

theorem grows_of_sent : ∃ v, (asked.site 0).store.find? (loneRoster.ids 0) = some v ∧
    v.state = .requesting ∧ ∃ w, (sent.site 0).store.find? (loneRoster.ids 0) = some w ∧
      v.Grows w ∧ (w.stateCount ≠ 0 → v.stateCount ≤ w.stateCount) := by
  have hv : ((asked.site 0).store.find? (loneRoster.ids 0)).map Negotiation.state =
      some .requesting := by decide +kernel
  obtain ⟨v, hf, hs⟩ := Option.map_eq_some_iff.mp hv
  exact ⟨v, hf, hs, grows_of_runs lone_typed (Store.tidy_of_records records_vacant)
    (by simp [records_vacant]) runs_asked runs_sent hf⟩

end Network

end ContractNegotiation
