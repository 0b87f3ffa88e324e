import ContractNegotiation.Proofs.Network.Decline
import ContractNegotiation.Proofs.Store.Choice

namespace ContractNegotiation

open ContractNegotiation.Action Negotiation Relation

namespace Store

variable {s t : Store} {code : Int} {role : Option Role} {batch : Nat} {holder : String}
  {now : Instant} {v : Negotiation} {ns : List Negotiation}

theorem subperm_of_leaseNext (h : s.leaseNext code role batch holder now = (ns, t)) :
    ns.Subperm (s.candidates code role now) := by
  obtain ⟨rfl, -⟩ := Prod.mk.inj h
  exact (List.take_sublist _ _).subperm.trans (List.mergeSort_perm _ _).subperm

theorem exists_mem_of_room {p : Negotiation → Bool}
    (h : s.leaseNext code role batch holder now = (ns, t)) (hv : v ∈ s.candidates code role now)
    (hp : p v = true) (hroom : ((s.candidates code role now).filter fun w =>
      !p w && w.stateTimestamp ≤ v.stateTimestamp).length < batch) : ∃ w ∈ ns, p w = true := by
  by_contra hnone
  simp only [not_exists, not_and, Bool.not_eq_true] at hnone
  have hns : v ∉ ns := fun hmem => by simp [hnone v hmem] at hp
  obtain ⟨hlength, hold⟩ := leaseNext_full h hv hns
  have hall : ns.filter (fun w => !p w && w.stateTimestamp ≤ v.stateTimestamp) = ns := by
    apply List.filter_eq_self.mpr
    intro w hw
    simp [hnone w hw, hold w hw]
  have hle := ((subperm_of_leaseNext h).filter fun w =>
    !p w && w.stateTimestamp ≤ v.stateTimestamp).length_le
  rw [hall, hlength] at hle
  omega

end Store

namespace Site

structure Ready (s : Site) (role : Role) (state : State) (now : Instant) (v : Negotiation) :
    Prop where
  stored : v ∈ s.store.records
  stateCode : v.stateCode = state.code
  unleased : s.store.liveLease? v.id now = none
  free : s.isFree role now v = true
  role : v.role = some role

/-- Records that wait in a state, for a command or for their next attempt, and have been there for
as long as `v`. -/
def waitingBefore (s : Site) (role : Role) (state : State) (now : Instant) (v : Negotiation) :
    List Negotiation :=
  s.store.records.filter fun w =>
    w.stateCode = state.code ∧ w.role = some role ∧ s.store.liveLease? w.id now = none ∧
      s.isFree role now w = false ∧ w.stateTimestamp ≤ v.stateTimestamp

variable {s : Site} {role : Role} {state : State} {now : Instant} {v : Negotiation}

theorem mem_candidates_iff : v ∈ s.store.candidates state.code (some role) now ↔
    v ∈ s.store.records ∧ v.stateCode = state.code ∧ v.role = some role ∧
      s.store.liveLease? v.id now = none := by
  simp only [Store.candidates, List.mem_filter, Bool.and_eq_true, decide_eq_true_eq,
    Option.isNone_iff_eq_none, and_assoc]

theorem Ready.candidate (h : s.Ready role state now v) :
    v ∈ s.store.candidates state.code (some role) now :=
  mem_candidates_iff.mpr ⟨h.stored, h.stateCode, h.role, h.unleased⟩

theorem ready_of_candidate (hv : v ∈ s.store.candidates state.code (some role) now)
    (hfree : s.isFree role now v = true) : s.Ready role state now v := by
  obtain ⟨hstored, hcode, hrole, hlease⟩ := mem_candidates_iff.mp hv
  exact ⟨hstored, hcode, hlease, hfree, hrole⟩

theorem filter_candidates (s : Site) (role : Role) (state : State) (now : Instant)
    (v : Negotiation) : (s.store.candidates state.code (some role) now).filter (fun w =>
      !s.isFree role now w && w.stateTimestamp ≤ v.stateTimestamp) =
        s.waitingBefore role state now v := by
  rw [Store.candidates, List.filter_filter, waitingBefore]
  apply List.filter_congr
  intro w _
  rw [Bool.eq_iff_iff]
  simp only [Bool.and_eq_true, Bool.not_eq_true', decide_eq_true_eq, Option.isNone_iff_eq_none]
  tauto

end Site

namespace Network

variable {n : Nat} {ids : Nat → String} {i : Fin n} {net net' : Network n} {m : Manager}
  {send : Transport (Network n)} {state : State} {v : Negotiation} {ns : List Negotiation}

theorem processState_eq (ids : Nat → String) (m : Manager) (send : Transport (Network n))
    (state : State) (net : Network n) {store : Store}
    (hl : (net.site i).store.leaseNext state.code (some m.role) m.options.batchSize m.leaseHolder
      net.now = (ns, store)) :
    ∃ t, (t.site i).store.records = (net.site i).store.records ∧
      m.processState (environment ids i) send state net =
        (do m.processDue (environment ids i) send
              (ns.filter ((net.site i).isFree m.role net.now))
            pure (ns.filter ((net.site i).isFree m.role net.now)).length) t := by
  obtain ⟨b, q, t, hb⟩ := (situated ids i net).poll_begun (m := m) (p := net.page i) (.refl net)
    state
  obtain ⟨_, hnow⟩ := hb.judged
  obtain ⟨store', hl'⟩ := hb.leased
  have hns : b.leased = ns := congrArg Prod.fst (hl'.symm.trans hl)
  have hdue : b.due = ns.filter ((net.site i).isFree m.role net.now) := by
    rw [hb.due, hns, hnow]
    rfl
  refine ⟨t, ?_, ?_⟩
  · rw [hb.shown.site]
    exact hb.records
  · rw [← hdue]
    exact hb.goesOn send

theorem processState_waits (ids : Nat → String) (m : Manager) (send : Transport (Network n))
    (state : State) (net : Network n) {store : Store}
    (hl : (net.site i).store.leaseNext state.code (some m.role) m.options.batchSize m.leaseHolder
      net.now = (ns, store))
    (hwaits : ∀ w ∈ ns, (net.site i).isFree m.role net.now w = false) :
    Yields (m.processState (environment ids i) send state) net fun handled net' =>
      handled = 0 ∧ (net'.site i).store.records = (net.site i).store.records := by
  obtain ⟨t, ht, hprocess⟩ := processState_eq ids m send state net hl
  have hnone : ns.filter ((net.site i).isFree m.role net.now) = [] := by
    apply List.filter_eq_nil_iff.mpr
    intro w hw
    simp [hwaits w hw]
  have hdue : m.processDue (environment ids i) send [] = pure () := if_pos (.inr (Nat.zero_le 1))
  rw [hnone, hdue] at hprocess
  exact ⟨0, t, hprocess, rfl, ht⟩

theorem processDue_answers (m : Manager) (send : Transport (Network n)) (due : List Negotiation)
    (net : Network n) :
    Yields (m.processDue (environment ids i) send due) net fun _ _ => True :=
  Manager.processDue_keeps (processLeased_answers m send) (fun _ _ _ _ _ => trivial)
    (fun v _ t _ => processLeased_answers m send v t) trivial

/-- A record whose turn could come is not kept from it by others that wait, unless these alone fill
a batch: with fewer of them that have been in the state for as long, the poll processes a record
that is ready, and answers how many it has processed. What becomes of the messages is of no
matter. -/
theorem processState_progresses (ids : Nat → String) (m : Manager) (send : Transport (Network n))
    (hv : (net.site i).Ready m.role state net.now v)
    (hroom : ((net.site i).waitingBefore m.role state net.now v).length < m.options.batchSize) :
    ∃ due t, due ≠ [] ∧ (∀ w ∈ due, (net.site i).Ready m.role state net.now w) ∧
      (t.site i).store.records = (net.site i).store.records ∧
      m.processState (environment ids i) send state net =
        (do m.processDue (environment ids i) send due
            pure due.length) t ∧
      Yields (m.processState (environment ids i) send state) net fun handled _ =>
        handled = due.length := by
  obtain ⟨ns, store, hl⟩ : ∃ ns store, (net.site i).store.leaseNext state.code (some m.role)
    m.options.batchSize m.leaseHolder net.now = (ns, store) := ⟨_, _, rfl⟩
  obtain ⟨t, ht, hprocess⟩ := processState_eq ids m send state net hl
  rw [← Site.filter_candidates] at hroom
  obtain ⟨w, hw, hfree⟩ := Store.exists_mem_of_room hl hv.candidate hv.free hroom
  refine ⟨_, t, ?_, ?_, ht, hprocess, ?_⟩
  · exact List.ne_nil_of_mem (List.mem_filter.mpr ⟨hw, hfree⟩)
  · intro x hx
    obtain ⟨hmem, hfree⟩ := List.mem_filter.mp hx
    exact Site.ready_of_candidate (Store.mem_candidates_of_leaseNext hl hmem) hfree
  · unfold Yields
    rw [hprocess]
    apply (processDue_answers m send _ t).bind
    intro _ u _
    exact yields_pure.mpr rfl

def frugalSettings : Vector Settings 2 :=
  #v[Settings.withDefaults { connector := some { participantId := "c", address := "http://c" }
                             manager := some { batchSize := 1 } },
    Settings.withDefaults { connector := some { participantId := "p", address := "http://p" }
                            manager := some { batchSize := 1 } }]

def frugalParties : Roster 2 := .ofSettings frugalSettings partyDraws

/-- A request could not be delivered and waits for its next attempt, when another one is made. -/
def crowded (i : Fin 2) (roster : Roster 2) : Network 2 :=
  let lost := (Service.initiate (roster.connector i) (environment roster.ids i) hopeless).after
    introduced
  let waiting := (runOnce roster i .consumer).after lost
  (Service.initiate (roster.connector i) (environment roster.ids i) offered).after
    { waiting with now := .ofMillis 1 }

theorem processState_progresses_of_crowded :
    (∃ v ∈ ((crowded 0 parties).site 0).store.records,
      ((crowded 0 parties).site 0).Ready .consumer .requesting (crowded 0 parties).now v ∧
      (((crowded 0 parties).site 0).waitingBefore .consumer .requesting (crowded 0 parties).now
        v).length = 1) ∧
    Yields ((parties.connector 0).consumer.processState (environment parties.ids 0)
      (Network.send parties 0) .requesting) (crowded 0 parties) fun handled _ => handled ≠ 0 := by
  obtain ⟨v, hmem, hcode, hrole, hlease, hfree, hone⟩ :
      ∃ v ∈ ((crowded 0 parties).site 0).store.records,
        v.stateCode = State.requesting.code ∧ v.role = some .consumer ∧
          ((crowded 0 parties).site 0).store.liveLease? v.id (crowded 0 parties).now = none ∧
          ((crowded 0 parties).site 0).isFree .consumer (crowded 0 parties).now v = true ∧
          (((crowded 0 parties).site 0).waitingBefore .consumer .requesting (crowded 0 parties).now
            v).length = 1 := by decide +kernel
  have hready : ((crowded 0 parties).site 0).Ready .consumer .requesting
      (crowded 0 parties).now v := ⟨hmem, hcode, hlease, hfree, hrole⟩
  have hroom : (((crowded 0 parties).site 0).waitingBefore .consumer .requesting
      (crowded 0 parties).now v).length < (parties.connector 0).consumer.options.batchSize := by
    rw [hone]
    decide +kernel
  obtain ⟨due, -, hdue, -, -, -, hyields⟩ := processState_progresses parties.ids
    (parties.connector 0).consumer (Network.send parties 0) hready hroom
  refine ⟨⟨v, hmem, hready, hone⟩, hyields.mono ?_⟩
  rintro handled _ rfl
  exact fun h => hdue (List.eq_nil_of_length_eq_zero h)

theorem frugal_built : Built frugalSettings strangers where
  store i := by
    match i with
    | 0 | 1 => rfl
  addresses := rfl
  issued := rfl

theorem crowded_of_strangers :
    ReflTransGen (Acts frugalParties) strangers (crowded 0 frugalParties) := by
  have begun : ReflTransGen (Acts frugalParties) strangers strangers := .refl
  have registered := (begun.tail (.register 1 _)).tail (.register 0 _)
  have waiting := (registered.tail (.initiate 0 hopeless _)).tail (.round 0 .consumer _)
  exact (waiting.tail (.clock (.ofMillis 1) _)).tail (.initiate 0 offered _)

theorem leaseNext_crowded (holder : String) : ∃ older store,
    ((crowded 0 frugalParties).site 0).store.leaseNext State.requesting.code (some .consumer) 1
      holder (crowded 0 frugalParties).now = ([older], store) ∧
    ((crowded 0 frugalParties).site 0).isFree .consumer (crowded 0 frugalParties).now older =
      false := by
  generalize hs : (crowded 0 frugalParties).site 0 = s
  obtain ⟨newer, older, hcandidates⟩ : ∃ newer older, s.store.candidates State.requesting.code
      (some .consumer) (crowded 0 frugalParties).now = [newer, older] := by
    rw [← hs]
    exact List.length_eq_two.mp (by decide +kernel)
  have hages : (s.store.candidates State.requesting.code (some .consumer)
      (crowded 0 frugalParties).now).map (fun v => (v.stateTimestamp,
        s.isFree .consumer (crowded 0 frugalParties).now v)) = [(1, true), (0, false)] := by
    rw [← hs]
    decide +kernel
  rw [hcandidates] at hages
  simp only [List.map_cons, List.map_nil, List.cons.injEq, Prod.mk.injEq, and_true] at hages
  have hsorted : ([newer, older].mergeSort fun a b => a.stateTimestamp ≤ b.stateTimestamp) =
      [older, newer] := by
    simp [List.mergeSort, List.MergeSort.Internal.splitInTwo, hages]
  refine ⟨older, _, Prod.ext ?_ rfl, hages.2.2⟩
  simp only [Store.leaseNext, hcandidates, hsorted, List.take_succ_cons, List.take_zero]

/-- With batches of one record, the older request keeps the newer one from being sent, though that
one is ready, and the network was built and run as it should be. -/
theorem poll_starved :
    (∀ i, (frugalSettings.get i).validate = .ok ()) ∧ Built frugalSettings strangers ∧
    ReflTransGen (Acts frugalParties) strangers (crowded 0 frugalParties) ∧
    (frugalParties.connector 0).consumer.options.batchSize = 1 ∧
    (∃ v ∈ ((crowded 0 frugalParties).site 0).store.records,
      ((crowded 0 frugalParties).site 0).Ready .consumer .requesting
        (crowded 0 frugalParties).now v) ∧
    Yields ((frugalParties.connector 0).consumer.processState (environment frugalParties.ids 0)
      (Network.send frugalParties 0) .requesting) (crowded 0 frugalParties) fun handled net' =>
        handled = 0 ∧ (net'.site 0).store.records =
          ((crowded 0 frugalParties).site 0).store.records := by
  obtain ⟨v, hmem, hcode, hrole, hlease, hfree⟩ :
      ∃ v ∈ ((crowded 0 frugalParties).site 0).store.records,
        v.stateCode = State.requesting.code ∧ v.role = some .consumer ∧
          ((crowded 0 frugalParties).site 0).store.liveLease? v.id (crowded 0 frugalParties).now =
            none ∧
          ((crowded 0 frugalParties).site 0).isFree .consumer (crowded 0 frugalParties).now v =
            true := by decide +kernel
  refine ⟨by decide +kernel, frugal_built, crowded_of_strangers, by decide +kernel,
    ⟨v, hmem, hmem, hcode, hlease, hfree, hrole⟩, ?_⟩
  obtain ⟨older, store, hl, hwaits⟩ :=
    leaseNext_crowded (frugalParties.connector 0).consumer.leaseHolder
  apply (processState_waits (i := 0) frugalParties.ids (frugalParties.connector 0).consumer
    (Network.send frugalParties 0) .requesting (crowded 0 frugalParties) hl ?_).mono
  · rintro handled net' ⟨rfl, h⟩
    exact ⟨rfl, h⟩
  · intro w hw
    rw [List.mem_singleton.mp hw]
    exact hwaits

end Network

end ContractNegotiation
