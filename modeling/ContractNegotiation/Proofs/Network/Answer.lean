import ContractNegotiation.Proofs.Connector
import ContractNegotiation.Proofs.Page

namespace ContractNegotiation

open ContractNegotiation.Action

namespace Site

variable (s : Site) (role : Role)

def apply (now : Instant) (v : Negotiation) (event : Event) :
    Except Refusal Negotiation × Site :=
  match v.transition event now "" with
  | .rejected => (.error (.rejected v event), s)
  | .unchanged => (.ok v, s)
  | .applied next _ =>
    match s.store.save next "" now with
    | .error error => (.error (.store error), s)
    | .ok (w, store) => (.ok w, (s.record role store w.id).wake role)

def insert (now : Instant) (n : Negotiation) : Except Refusal Negotiation × Site :=
  match s.store.save { n with
      role := some role
      stateCount := 0
      stateTimestamp := now.toMillis
      createdAt := now.toMillis } "" now with
  | .error error => (.error (.store error), s)
  | .ok (w, store) => (.ok w, { s with store }.wake role)

inductive Wrote (now : Instant) (w : Negotiation) : Site → Prop where
  | nothing : Wrote now w s
  | inserted (role : Role) : w.stateCount = 1 → s.store.find? w.id = none →
      Wrote now w ({ s with store := { s.store with records := w :: s.store.records } }.wake role)
  | replaced (role : Role) (v next : Negotiation) (event : Event) (message : Option RemoteMessage) :
      s.store.find? v.id = some v → v.transition event now "" = .applied next message →
      w = { next with stateCount := v.stateCount + 1 } →
      Wrote now w ((s.record role (s.store.replace w) w.id).wake role)

inductive Answers (now : Instant) : Except Refusal Negotiation → Site → Prop where
  | refused (refusal : Refusal) : Answers now (.error refusal) s
  | granted (w : Negotiation) (t : Site) : t.store.find? w.id = some w → s.Wrote now w t →
      Answers now (.ok w) t

variable {s : Site} {role : Role} {now : Instant} {v w : Negotiation} {event : Event} {t : Site}

theorem Wrote.leases (h : s.Wrote now w t) : t.store.leases = s.store.leases := by
  cases h <;> simp [Store.replace]

theorem Wrote.others (h : s.Wrote now w t) {id : String} (hid : id ≠ w.id) :
    t.store.find? id = s.store.find? id := by
  cases h with
  | nothing => rfl
  | inserted =>
    rw [store_wake, Store.find?_cons, if_neg fun h => hid h.symm]
  | replaced =>
    rw [store_wake, store_record, Store.find?_replace, if_neg hid]

structure Granted (s : Site) (now : Instant) (w : Negotiation) (t : Site) : Prop where
  found : t.store.find? w.id = some w
  wrote : s.Wrote now w t
  others : ∀ id, id ≠ w.id → t.store.find? id = s.store.find? id
  leases : t.store.leases = s.store.leases

theorem Answers.refused_eq {refusal : Refusal} (h : s.Answers now (.error refusal) t) : t = s := by
  cases h
  rfl

theorem Answers.granted_of_ok (h : s.Answers now (.ok w) t) : s.Granted now w t := by
  cases h with
  | granted _ _ hf hw => exact ⟨hf, hw, fun _ => hw.others, hw.leases⟩

theorem answers_of_apply (hv : s.store.find? v.id = some v) :
    s.Answers now (s.apply role now v event).1 (s.apply role now v event).2 := by
  unfold apply
  split
  · exact .refused _
  · exact .granted v s hv .nothing
  · rename_i next message ht
    have hc := (Negotiation.row_of_transition ht).continues
    split
    · exact .refused _
    · rename_i w store hsave
      have hsaved := Store.saved_of_save hsave
      apply Answers.granted
      · rw [store_wake, store_record, hsaved.find?, if_pos rfl]
      · cases hsaved with
        | first _ _ hnone =>
          rw [hc.id, hv] at hnone
          cases hnone
        | next x _ _ hf hx =>
          apply Wrote.replaced role v next event message hv ht
          rw [hc.stateCount]

theorem answers_of_insert (n : Negotiation) :
    s.Answers now (s.insert role now n).1 (s.insert role now n).2 := by
  unfold insert
  split
  · exact .refused _
  · rename_i w store hsave
    obtain ⟨ho, rfl⟩ := Store.Opened.of_saved (Store.saved_of_save hsave) rfl
    apply Answers.granted
    · rw [store_wake, ho.find?, if_pos rfl]
    · rw [ho.store]
      exact .inserted role rfl ho.fresh

end Site

namespace Network

variable {n : Nat} {ids : Nat → String} {i : Fin n} {net net' net'' : Network n} {site : Site}

structure Alters (i : Fin n) (site : Site) (net net' : Network n) : Prop
    extends (focus i).Confined net net' where
  site : net'.site i = site

theorem Alters.refl (net : Network n) : Alters i (net.site i) net net := ⟨.refl net, rfl⟩

theorem Alters.trans {site' : Site} (h : Alters i site net net') (h' : Alters i site' net' net'') :
    Alters i site' net net'' := ⟨h.toConfined.trans h'.toConfined, h'.site⟩

theorem alters_setSite (net : Network n) (i : Fin n) (site : Site) :
    Alters i site net (net.setSite i site) := by
  refine ⟨confined_setSite net i site, ?_⟩
  rw [site_setSite, if_pos rfl]

theorem Alters.now (h : Alters i site net net') : net'.now = net.now :=
  congrArg (·.2.2) h.outside

structure Replies (i : Fin n) (net : Network n) (r : Except Refusal Negotiation)
    (net' : Network n) : Prop extends (focus i).Confined net net' where
  site : (net.site i).Answers net.now r (net'.site i)

theorem Replies.after {r : Except Refusal Negotiation} (h : Replies i net' r net'')
    (ha : Alters i (net.site i) net net') : Replies i net r net'' := by
  refine ⟨ha.toConfined.trans h.toConfined, ?_⟩
  have hs := h.site
  rwa [ha.site, ha.now] at hs

theorem Alters.refuses (ha : Alters i (net.site i) net net') (refusal : Refusal) :
    Replies i net (.error refusal) net' := by
  refine ⟨ha.toConfined, ?_⟩
  rw [ha.site]
  exact .refused refusal

theorem Alters.replies {outcome : Except Refusal Negotiation × Site}
    (ha : Alters i outcome.2 net net') (h : (net.site i).Answers net.now outcome.1 outcome.2) :
    Replies i net outcome.1 net' := by
  refine ⟨ha.toConfined, ?_⟩
  rwa [ha.site]

theorem update_yields (role : Role) (f : Workload → Workload) :
    Yields ((environment ids i).update role f) net fun _ net' =>
      Alters i ((net.site i).update role f) net net' :=
  ⟨(), _, rfl, alters_setSite net i _⟩

theorem report_yields (notice : Notice) : Yields (report notice) net fun _ net' =>
    Alters i (net.site i) net net' :=
  ⟨(), _, rfl, ⟨Nat.le_refl _, rfl⟩, rfl⟩

theorem freshId_yields : Yields (environment ids i).freshId net fun id net' =>
    id = ids net.issued ∧ Alters i (net.site i) net net' :=
  ⟨_, _, rfl, rfl, ⟨Nat.le_succ _, rfl⟩, rfl⟩

theorem save_yields (v : Negotiation) (holder : String) :
    Yields ((environment ids i).save v holder) net fun r net' =>
      match (net.site i).store.save v holder net.now with
      | .error error => r = .error error ∧ Alters i (net.site i) net net'
      | .ok (w, store) => r = .ok w ∧ Alters i { net.site i with store } net net' := by
  cases h : (net.site i).store.save v holder net.now with
  | error error =>
    refine ⟨.error error, net, ?_, rfl, .refl net⟩
    simp only [environment, save, Bind.bind, EStateM.bind, get_apply, h]
    rfl
  | ok saved =>
    refine ⟨.ok saved.1, net.setStore i saved.2, ?_, rfl, alters_setSite net i _⟩
    simp only [environment, save, Bind.bind, EStateM.bind, get_apply, h]
    rfl

theorem transition_yields (v : Negotiation) (event : Event) :
    Yields ((environment ids i).transition v event) net fun outcome net' =>
      outcome = v.transition event net.now (if v.drawsId event then ids net.issued else "") ∧
        Alters i (net.site i) net net' := by
  unfold Yields Environment.transition
  cases hd : v.drawsId event with
  | true => exact ⟨_, _, rfl, rfl, ⟨Nat.le_succ _, rfl⟩, rfl⟩
  | false => exact ⟨_, _, rfl, rfl, .refl net⟩

theorem breakLease_yields (id holder : String) :
    Yields ((environment ids i).breakLease id holder) net fun _ net' =>
      Alters i ((net.site i).release net.now holder id) net net' := by
  unfold Site.release
  cases h : (net.site i).store.breakLease id holder net.now with
  | error error =>
    refine ⟨.error error, net, ?_, .refl net⟩
    simp only [environment, breakLease, Bind.bind, EStateM.bind, get_apply, h]
    rfl
  | ok store =>
    refine ⟨.ok (), net.setStore i store, ?_, alters_setSite net i _⟩
    simp only [environment, breakLease, Bind.bind, EStateM.bind, get_apply, h]
    rfl

theorem situated (ids : Nat → String) (i : Fin n) (net : Network n) :
    (environment ids i).Situated (fun _ => net.now) fun p net' => Alters i p.site net net' where
  now h := ⟨_, _, rfl, h.now, h⟩
  freshId h := freshId_yields.mono fun _ _ ht => h.trans (h.site ▸ ht.2)
  report notice h := (report_yields notice).mono fun _ _ ht => h.trans (h.site ▸ ht)
  find id h := ⟨_, _, rfl, by rw [← h.site], h⟩
  save {p s} v holder h := by
    apply (save_yields v holder).mono
    intro r t ht
    rw [h.site, h.now] at ht
    cases hsave : p.site.store.save v holder net.now with
    | error error =>
      simp only [hsave] at ht ⊢
      exact ⟨ht.1, h.trans ht.2⟩
    | ok saved =>
      simp only [hsave] at ht ⊢
      exact ⟨ht.1, h.trans ht.2⟩
  lease {p s} state role batch holder h := by
    rcases hl : p.site.store.leaseNext state.code (some role) batch holder net.now
      with ⟨vs, store⟩
    rw [← h.site, ← h.now] at hl
    refine ⟨vs, _, lease_apply hl, store, rfl, h.trans ?_⟩
    rw [← h.site]
    exact alters_setSite s i _
  breakLease id holder h := by
    apply (breakLease_yields id holder).mono
    intro _ t ht
    rw [h.site, h.now] at ht
    exact h.trans ht
  workload role h := ⟨_, _, rfl, by rw [← h.site], rfl⟩
  setWorkload {p s} role w h := by
    refine ⟨_, _, rfl, h.trans ?_⟩
    rw [← h.site]
    exact alters_setSite s i _

def page (net : Network n) (i : Fin n) : Page where
  site := net.site i

variable (m : Manager)

theorem persist_yields (v next : Negotiation) (holder : String) :
    Yields (m.persist (environment ids i) v next holder) net fun r net' =>
      match (net.site i).store.save next holder net.now with
      | .error error => r = .error error ∧ Alters i (net.site i) net net'
      | .ok (w, store) =>
        r = .ok w ∧ Alters i ((net.site i).record m.role store w.id) net net' :=
  (situated ids i net).persist_yields m (p := net.page i) (.refl net) v next holder

theorem wake_yields : Yields (m.wake (environment ids i)) net fun _ net' =>
    Alters i ((net.site i).wake m.role) net net' := update_yields m.role _

theorem apply_yields {v : Negotiation} {event : Event} (hd : v.drawsId event = false) :
    Yields (m.apply (environment ids i) v event) net fun r net' =>
      r = ((net.site i).apply m.role net.now v event).1 ∧
        Alters i ((net.site i).apply m.role net.now v event).2 net net' := by
  apply (transition_yields v event).bind
  rintro outcome t ⟨ho, ht⟩
  replace ho : outcome = v.transition event net.now "" := by simpa [hd] using ho
  unfold Site.apply
  cases outcome with
  | rejected =>
    rw [← ho]
    exact yields_pure.mpr ⟨rfl, ht⟩
  | unchanged =>
    rw [← ho]
    exact yields_pure.mpr ⟨rfl, ht⟩
  | applied next message =>
    rw [← ho]
    apply (persist_yields m v next "").bind
    intro r u hr
    rw [ht.site, ht.now] at hr
    dsimp only
    split at hr
    · obtain ⟨rfl, hu⟩ := hr
      exact yields_pure.mpr ⟨rfl, ht.trans hu⟩
    · obtain ⟨rfl, hu⟩ := hr
      apply (wake_yields m).bind
      intro _ u' hu'
      rw [hu.site] at hu'
      exact yields_pure.mpr ⟨rfl, ht.trans (hu.trans hu')⟩

theorem insert_yields (v : Negotiation) :
    Yields (m.insert (environment ids i) v) net fun r net' =>
      r = ((net.site i).insert m.role net.now v).1 ∧
        Alters i ((net.site i).insert m.role net.now v).2 net net' := by
  unfold Site.insert
  apply (save_yields _ "").bind
  intro r t hr
  split at hr
  · obtain ⟨rfl, ht⟩ := hr
    exact yields_pure.mpr ⟨rfl, ht⟩
  · rename_i w store _
    obtain ⟨rfl, ht⟩ := hr
    apply (report_yields (i := i) _).bind
    intro _ u hu
    apply (wake_yields m).bind
    intro _ u' hu'
    rw [hu.site, ht.site] at hu'
    exact yields_pure.mpr ⟨rfl, ht.trans (hu.trans hu')⟩

theorem apply_replies {v : Negotiation} {event : Event} (hd : v.drawsId event = false)
    (hv : (net.site i).store.find? v.id = some v) :
    Yields (m.apply (environment ids i) v event) net (Replies i net) := by
  apply (apply_yields m hd).mono
  rintro r net' ⟨rfl, ha⟩
  exact ha.replies (Site.answers_of_apply hv)

theorem insert_replies (v : Negotiation) :
    Yields (m.insert (environment ids i) v) net (Replies i net) := by
  apply (insert_yields m v).mono
  rintro r net' ⟨rfl, ha⟩
  exact ha.replies (Site.answers_of_insert v)

theorem findOwned_yields (id : String) :
    Yields (m.findOwned (environment ids i) id) net fun found net' =>
      found = m.own ((net.site i).store.find? id) ∧ net' = net := ⟨_, _, rfl, rfl, rfl⟩

theorem findCorrelated_yields (c : String) :
    Yields (m.findCorrelated (environment ids i) c) net fun found net' =>
      found = m.own ((net.site i).store.findByCorrelation? c) ∧ net' = net := ⟨_, _, rfl, rfl, rfl⟩

theorem identified_yields (offer : Offer) :
    Yields (Manager.identified (environment ids i) offer) net fun given net' =>
      given = (if offer.id = "" then { offer with id := ids net.issued } else offer) ∧
        Alters i (net.site i) net net' := by
  unfold Manager.identified
  split
  · apply freshId_yields.bind
    rintro id t ⟨rfl, ht⟩
    exact yields_pure.mpr ⟨rfl, ht⟩
  · exact yields_pure.mpr ⟨rfl, .refl net⟩

section Operations

variable (hs : (net.site i).store.Tidy)
include hs

theorem applyCorrelated_replies (c : String) {event : Event}
    (hd : ∀ v : Negotiation, v.drawsId event = false) :
    Yields (m.applyCorrelated (environment ids i) c event) net (Replies i net) := by
  apply (findCorrelated_yields m c).bind
  rintro found t ⟨hf, rfl⟩
  cases found with
  | none => exact yields_pure.mpr ((Alters.refl t).refuses _)
  | some v =>
    have hv := (m.own_eq_some.mp hf.symm).1
    have hmem := (Store.correlationId_of_findByCorrelation? hv).1
    exact apply_replies m (hd v) (hs.find?_of_mem hmem)

omit hs in
theorem initiate_replies (request : ContractRequest) :
    Yields (m.initiate (environment ids i) request) net (Replies i net) := by
  unfold Manager.initiate
  split
  · exact yields_pure.mpr ((Alters.refl net).refuses _)
  · rename_i offer _
    split
    · exact yields_pure.mpr ((Alters.refl net).refuses _)
    · apply freshId_yields.bind
      rintro id t ⟨-, ht⟩
      apply (identified_yields offer).bind
      rintro offer' u ⟨-, hu⟩
      rw [ht.site] at hu
      apply (insert_replies m _).mono
      intro r net' hr
      exact hr.after (ht.trans hu)

theorem counterOffer_replies (id : String) (offer : Offer) :
    Yields (m.counterOffer (environment ids i) id offer) net (Replies i net) := by
  apply (findOwned_yields m id).bind
  rintro found t ⟨hf, rfl⟩
  cases found with
  | none => exact yields_pure.mpr ((Alters.refl t).refuses _)
  | some v =>
    have hv := (m.own_eq_some.mp hf.symm).1
    apply (identified_yields offer).bind
    rintro offer' u ⟨-, hu⟩
    have hvu : (u.site i).store.find? v.id = some v := by
      rw [hu.site]
      exact hs.find?_of_mem (Store.mem_of_find? hv)
    apply (apply_replies m rfl hvu).mono
    intro r net' hr
    exact hr.after hu

theorem requested_replies (token : ClaimToken) (message : RequestMessage) :
    Yields (m.requested (environment ids i) token message) net (Replies i net) := by
  unfold Manager.requested
  split
  · exact yields_pure.mpr ((Alters.refl net).refuses _)
  · split
    · exact yields_pure.mpr ((Alters.refl net).refuses _)
    · apply (findCorrelated_yields m message.processId).bind
      rintro found t ⟨hf, rfl⟩
      cases found with
      | some v =>
        have hv := (m.own_eq_some.mp hf.symm).1
        have hvt := hs.find?_of_mem (Store.correlationId_of_findByCorrelation? hv).1
        dsimp only
        split
        · exact yields_pure.mpr ⟨.refl t, .granted v _ hvt .nothing⟩
        · exact apply_replies m rfl hvt
      | none =>
        dsimp only
        generalize (if token.clientId ≠ "" then token.clientId else message.connectorId) = c
        split
        · exact yields_pure.mpr ((Alters.refl t).refuses _)
        · split
          · exact yields_pure.mpr ((Alters.refl t).refuses _)
          · apply freshId_yields.bind
            rintro id u ⟨-, hu⟩
            apply (insert_replies m _).mono
            intro r net' hr
            exact hr.after hu

end Operations

end Network

namespace Service

inductive Call where
  | initiate (request : ContractRequest)
  | counterOffer (id : String) (offer : Offer)
  | requested (m : RequestMessage) (token : ClaimToken)
  | offered (m : OfferMessage)
  | agreed (m : AgreementMessage)
  | verified (m : VerificationMessage)
  | finalized (m : EventMessage)
  | terminated (m : TerminationMessage)

namespace Call

def answer {σ : Type} (c : Connector) (env : Environment σ) :
    Call → Action σ (Except Refusal Negotiation)
  | initiate request => Service.initiate c env request
  | counterOffer id offer => Service.counterOffer c env id offer
  | requested m token => Service.requested c env m token
  | offered m => Service.offered c env m
  | agreed m => Service.agreed c env m
  | verified m => Service.verified c env m
  | finalized m => Service.finalized c env m
  | terminated m => Service.terminated c env m

def ofMessage? (token : ClaimToken) : RemoteMessage → Option Call
  | .empty => none
  | .request m => some (requested m token)
  | .offer m => some (offered m)
  | .agreement m => some (agreed m)
  | .verification m => some (verified m)
  | .event m => if m.type = .finalized then some (finalized m) else none
  | .termination m => some (terminated m)

end Call

theorem receive_eq {σ : Type} (c : Connector) (env : Environment σ) (m : RemoteMessage)
    (token : ClaimToken) : receive c env m token =
      match Call.ofMessage? token m with
      | none => pure none
      | some call => some <$> call.answer c env := by
  cases m with
  | event m =>
    simp only [receive, Call.ofMessage?]
    split <;> rfl
  | _ => rfl

end Service

namespace Network

variable {n : Nat} {ids : Nat → String} {i j : Fin n} {net net' : Network n}

theorem call_yields {α : Type} {block : Action (Network n) α} {R : α → Network n → Prop}
    (route : Route) (id : String) (h : Yields block net R) :
    Yields (Service.call (environment ids i) route id block) net R := by
  apply h.attempt.bind
  rintro _ t ⟨a, rfl, ht⟩
  exact yields_pure.mpr ht

theorem answer_replies (c : Connector) (hs : (net.site i).store.Tidy) (call : Service.Call) :
    Yields (call.answer c (environment ids i)) net (Replies i net) := by
  cases call with
  | initiate request => exact call_yields _ _ (initiate_replies _ request)
  | counterOffer id offer => exact call_yields _ _ (counterOffer_replies _ hs id offer)
  | requested m token => exact call_yields _ _ (requested_replies _ hs token m)
  | offered m => exact call_yields _ _ (applyCorrelated_replies _ hs _ fun _ => rfl)
  | agreed m =>
    apply call_yields
    unfold Manager.agreed
    split
    · exact yields_pure.mpr ((Alters.refl net).refuses _)
    · exact applyCorrelated_replies _ hs _ fun _ => rfl
  | verified m => exact call_yields _ _ (applyCorrelated_replies _ hs _ fun _ => rfl)
  | finalized m => exact call_yields _ _ (applyCorrelated_replies _ hs _ fun _ => rfl)
  | terminated m =>
    apply call_yields
    have hfind : Yields ((environment ids i).findByCorrelation m.processId) net
        fun _ net' => net' = net := ⟨_, _, rfl, rfl⟩
    apply hfind.bind
    rintro found t rfl
    cases found with
    | none => exact yields_pure.mpr ((Alters.refl t).refuses _)
    | some v =>
      dsimp only
      split
      · exact applyCorrelated_replies _ hs _ fun _ => rfl
      · exact yields_pure.mpr ((Alters.refl t).refuses _)

theorem receive_replies (c : Connector) (hs : (net.site i).store.Tidy) (m : RemoteMessage)
    (token : ClaimToken) :
    Yields (Service.receive c (environment ids i) m token) net fun r net' =>
      match r with
      | none => net' = net
      | some r => Replies i net r net' := by
  rw [Service.receive_eq]
  split
  · exact yields_pure.mpr rfl
  · rename_i call _
    apply ((answer_replies c hs call).map some).mono
    rintro _ net' ⟨r, rfl, h⟩
    exact h

theorem clientId_senderToken (participantId : String) :
    (Loopback.senderToken participantId).clientId = participantId := by
  simp [Loopback.senderToken, ClaimToken.clientId]

theorem send_yields {roster : Roster n} {m : RemoteMessage}
    (hi : net.addresses.get? m.destination = some i)
    {R : Option (Except Refusal Negotiation) → Network n → Prop}
    (h : Yields (Service.receive (roster.connector i) (environment roster.ids i) m
      (Loopback.senderToken (roster.connector j).participantId)) net R) :
    Yields (send roster j m) net fun answer net' =>
      ∃ r, answer = Loopback.answer m.kind r ∧ R r net' := by
  apply (yields_get.mpr ⟨rfl, rfl⟩ :
    Yields get net fun (a : Network n) t => a = net ∧ t = net).bind
  rintro _ _ ⟨rfl, rfl⟩
  simp only [hi]
  apply h.attempt.bind
  rintro _ t ⟨r, rfl, hr⟩
  exact yields_pure.mpr ⟨r, rfl, hr⟩

theorem send_unreachable {roster : Roster n} {m : RemoteMessage}
    (hnone : net.addresses.get? m.destination = none) :
    Yields (send roster j m) net fun answer net' =>
      answer = Loopback.unreachable m.destination ∧ net' = net := by
  apply (yields_get.mpr ⟨rfl, rfl⟩ :
    Yields get net fun (a : Network n) t => a = net ∧ t = net).bind
  rintro _ _ ⟨rfl, rfl⟩
  simp only [hnone]
  exact yields_pure.mpr ⟨rfl, rfl⟩

variable {connectors : Vector Connector n} {draws : Nat → Identifier} {start : Network n}

/-- Whatever is leased and to whom, a call that is refused leaves a connector as it was, and so does
a message that is not accepted. One that succeeds has inserted a first version or replaced one
record by what a transition makes of it, if it has done anything, and answers with the record as it
is now stored. The start may be any store, with any leases on its records. -/
theorem calls_atomic (hc : (connectors.get i).Typed) (hstart : (start.site i).store.Tidy)
    (hrun : Runs (.drawing connectors draws) i start net) :
    (∀ call : Service.Call, Yields (call.answer (connectors.get i)
        (environment (Roster.drawing connectors draws).ids i)) net fun r net' =>
      (focus i).Confined net net' ∧
        match r with
        | .error _ => net'.site i = net.site i
        | .ok w => (net.site i).Granted net.now w (net'.site i)) ∧
      ∀ (j : Fin n) (m : RemoteMessage), net.addresses.get? m.destination = some i →
        Yields (send (.drawing connectors draws) j m) net fun answer net' =>
          (focus i).Confined net net' ∧
            match answer with
            | .ok peer => ∃ w, peer = w.id ∧ (net.site i).Granted net.now w (net'.site i)
            | .transient _ | .fatal _ => net'.site i = net.site i := by
  have hs : (net.site i).store.Tidy := (hrun.evolves hc hstart).tidy hstart
  constructor
  · intro call
    apply (answer_replies (connectors.get i) hs call).mono
    rintro (refusal | w) net' h
    · exact ⟨h.toConfined, h.site.refused_eq⟩
    · exact ⟨h.toConfined, h.site.granted_of_ok⟩
  · intro j m hi
    apply (send_yields hi (receive_replies _ hs m _)).mono
    rintro _ net' ⟨r, rfl, h⟩
    cases r with
    | none =>
      obtain rfl : net' = net := h
      exact ⟨.refl net', rfl⟩
    | some r =>
      replace h : Replies i net r net' := h
      refine ⟨h.toConfined, ?_⟩
      cases r with
      | ok w => exact ⟨w, rfl, h.site.granted_of_ok⟩
      | error refusal =>
        simp only [Loopback.answer]
        cases Loopback.mayClearUp refusal.reason with
        | true => exact h.site.refused_eq
        | false => exact h.site.refused_eq

def contested : Network 1 :=
  sent.setStore (Fin.last 0) { (sent.site (Fin.last 0)).store with
    leases := (sent.site (Fin.last 0)).store.leases.insert (loneRoster.ids 0) ⟨"stranger", ⟨1⟩⟩ }

theorem calls_atomic_of_contested :
    ((contested.site 0).store.liveLease? (loneRoster.ids 0) contested.now).isSome = true ∧
      Yields (Service.offered loneConnector (environment loneRoster.ids 0)
        { processId := "peer", offer := some {} }) contested fun r net' =>
          (focus 0).Confined contested net' ∧
            match r with
            | .error _ => net'.site 0 = contested.site 0
            | .ok w => (contested.site 0).Granted contested.now w (net'.site 0) := by
  have htidy : (contested.site 0).store.Tidy := by
    unfold Store.Tidy
    decide +kernel
  have hrun : Runs loneRoster 0 contested contested := .done contested
  have hatomic := calls_atomic lone_typed htidy hrun
  exact ⟨by decide +kernel, hatomic.1 (.offered { processId := "peer", offer := some {} })⟩

end Network

end ContractNegotiation
