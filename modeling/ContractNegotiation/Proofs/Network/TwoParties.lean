import ContractNegotiation.Proofs.Network.Delivery
import ContractNegotiation.Proofs.Network.Round

namespace ContractNegotiation

open ContractNegotiation.Action Negotiation

def Negotiation.opening (n : Negotiation) (role : Role) (now : Instant) : Negotiation :=
  { n with
    role := some role
    stateCount := 1
    stateTimestamp := now.toMillis
    createdAt := now.toMillis }

theorem CommandQueue.dequeue_empty {q : CommandQueue} (h : q.waiting = []) (limit : Nat) :
    q.dequeue limit = ([], q) := by
  cases q
  simp only at h
  simp [dequeue, h]

namespace Site

structure NothingPending (s : Site) : Prop where
  waiting : ∀ r, (s.workload r).queue.waiting = []
  pending : ∀ r key, (s.workload r).queue.pending.get? key = none
  untried : ∀ r key, (s.workload r).retries.entries.get? key = none

structure Idle (s : Site) (records : List Negotiation) : Prop extends NothingPending s where
  records : s.store.records = records
  free : ∀ key, s.store.leases.get? key = none

variable {s t : Site} {v w : Negotiation} {role : Role} {m : Manager} {now : Instant}
  {records : List Negotiation}

theorem NothingPending.congr (h : s.NothingPending) (hw : ∀ r, t.workload r = s.workload r) :
    t.NothingPending := by
  refine ⟨fun r => ?_, fun r key => ?_, fun r key => ?_⟩ <;> rw [hw]
  · exact h.waiting r
  · exact h.pending r key
  · exact h.untried r key

theorem NothingPending.eases (h : s.NothingPending) (he : s.Eases t) : t.NothingPending where
  waiting r := (he.waiting r).trans (h.waiting r)
  pending r key := by
    rw [he.pending]
    exact h.pending r key
  untried r key := by
    rcases he.retries r key with hr | hr
    · exact hr.trans (h.untried r key)
    · exact hr

theorem Idle.eases (h : s.Idle records) (he : s.Eases t) {others : List Negotiation}
    (hr : t.store.records = others) : t.Idle others where
  toNothingPending := h.toNothingPending.eases he
  records := hr
  free key := by
    rw [he.leases]
    exact h.free key

theorem update_eq_self {f : Workload → Workload} (hf : f (s.workload role) = s.workload role) :
    s.update role f = s := by
  rw [update, hf]
  cases role <;> rfl

theorem Idle.find? (h : s.Idle [v]) : s.store.find? v.id = some v := by
  simp [Store.find?, h.records]

theorem Idle.findByCorrelation? (h : s.Idle [v]) (hv : v.correlationId ≠ "") :
    s.store.findByCorrelation? v.correlationId = some v := by
  simp [Store.findByCorrelation?, hv, h.records]

theorem Idle.grants (h : s.Idle [v]) (hid : v.id ≠ "") (hcount : v.stateCount ≠ 0)
    (holder : String) : s.store.Grants v holder := by
  refine ⟨hid, hcount, h.find?, fun lease hlease => ?_⟩
  rw [h.free] at hlease
  cases hlease

theorem records_replace (h : s.store.records = [v]) (hid : w.id = v.id) :
    (s.store.replace w).records = [w] := by
  simp [Store.replace, h, hid]

theorem Idle.moveOn (h : s.Idle [v]) (hid : w.id = v.id) : (s.moveOn role w).Idle [w] := by
  apply h.eases (eases_moveOn _ _ _)
  rw [store_moveOn]
  exact records_replace h.records hid

structure Busy (s : Site) (holder : String) (v : Negotiation) : Prop extends NothingPending s where
  records : s.store.records = [v]
  leased : ∀ key lease, s.store.leases.get? key = some lease → key = v.id ∧ lease.holder = holder

theorem Busy.grants {holder : String} (h : s.Busy holder v) (hid : v.id ≠ "")
    (hcount : v.stateCount ≠ 0) : s.store.Grants v holder := by
  refine ⟨hid, hcount, ?_, fun lease hlease => (h.leased _ lease hlease).2⟩
  simp [Store.find?, h.records]

theorem Busy.settle (h : s.Busy m.leaseHolder v) (hid : w.id = v.id) :
    (s.settle m now w).Idle [w] := by
  have hattends := attends_settle s m now w
  have hfree : (s.settle m now w).store.leases.get? w.id = none :=
    leases_settle fun lease hlease => (h.leased _ lease hlease).2
  refine ⟨⟨fun r => ?_, fun r key => ?_, fun r key => ?_⟩, ?_, fun key => ?_⟩
  · exact (hattends.waiting r).trans (h.waiting r)
  · rw [hattends.pending]
    exact h.pending r key
  · rcases hattends.retries r key with he | hn | ⟨rfl, rfl⟩
    · exact he.trans (h.untried r key)
    · exact hn
    · exact retries_settle ..
  · rw [records_settle]
    exact records_replace h.records hid
  · rcases hattends.leases key with he | ⟨-, hn⟩
    · by_cases hkey : key = w.id
      · rwa [hkey]
      · rw [he]
        cases hl : s.store.leases.get? key with
        | none => rfl
        | some lease => exact absurd ((h.leased key lease hl).1.trans hid.symm) hkey
    · exact hn

theorem Idle.insert (h : s.Idle []) {n : Negotiation} (hid : n.id ≠ "") :
    (s.insert role now n).1 = .ok (n.opening role now) ∧
      (s.insert role now n).2.Idle [n.opening role now] := by
  have hnone (id : String) : s.store.find? id = none := by simp [Store.find?, h.records]
  have hinsert : s.insert role now n = (.ok (n.opening role now),
      { s with store := { s.store with records := [n.opening role now] } }.wake role) := by
    simp [Site.insert, Store.save, hid, hnone, h.records, opening]
  rw [hinsert]
  refine ⟨rfl, ?_⟩
  apply h.eases (Eases.trans (eases_store _) (eases_wake _ _))
  · rw [store_wake]
  · rfl

end Site

theorem Store.leaseNext_single {s : Store} {v : Negotiation} {code : Int} {role : Option Role}
    {batch : Nat} (holder : String) (now : Instant) (hrec : s.records = [v])
    (hfree : s.leases.get? v.id = none) (hb : batch ≠ 0) (hcode : v.stateCode = code)
    (hrole : v.role = role) : s.leaseNext code role batch holder now =
      ([v], { s with leases := s.leases.insert v.id ⟨holder, now.later s.leaseDuration⟩ }) := by
  have hlive : s.liveLease? v.id now = none := by simp [liveLease?, hfree]
  have hchosen : s.candidates code role now = [v] := by
    simp [candidates, hrec, hcode, hrole, hlive]
  simp only [leaseNext, hchosen, List.mergeSort_singleton]
  rw [List.take_of_length_le (Nat.one_le_iff_ne_zero.mpr hb)]
  rfl

theorem Store.leaseNext_nothing {s : Store} {code : Int} {role : Option Role} {batch : Nat}
    (holder : String) (now : Instant)
    (h : ∀ v ∈ s.records, v.role = role → v.stateCode ≠ code) :
    s.leaseNext code role batch holder now = ([], s) := by
  have hchosen : s.candidates code role now = [] := by
    apply List.filter_eq_nil_iff.mpr
    intro v hv
    simp only [Bool.and_eq_true, decide_eq_true_eq, not_and]
    rintro ⟨hcode, hrole⟩
    exact absurd hcode (h v hv hrole)
  simp [leaseNext, hchosen]

namespace Network

variable {n : Nat} {roster : Roster n} {i : Fin n} {net net' : Network n} {m : Manager}
  {ids : Nat → String} {send : Transport (Network n)} {v w next : Negotiation}
  {records : List Negotiation} {state : State}

section Rounds

theorem steady_single {P Q : Network n → Prop}
    (hburden : ∀ t, P t → (t.site i).NothingPending)
    (hturn : ∀ t, P t → Yields (m.processLeased (environment ids i) send v) t fun _ u => Q u) :
    Steady m ids i send fun ns t => ns = [v] ∧ P t ∨ ns = [] ∧ Q t where
  perm ns others t h hp := by
    rcases h with ⟨rfl, h⟩ | ⟨rfl, h⟩
    · exact .inl ⟨List.perm_singleton.mp hp, h⟩
    · exact .inr ⟨List.perm_nil.mp hp, h⟩
  skip x ns t h hskip := by
    rcases h with ⟨-, h⟩ | ⟨h, -⟩
    · have hb := hburden t h
      simp [Site.isFree, CommandQueue.hasPending, Table.contains, RetryLog.isDue, hb.pending,
        hb.untried] at hskip
    · cases h
  turn x ns t h := by
    rcases h with ⟨he, h⟩ | ⟨h, -⟩
    · obtain ⟨rfl, rfl⟩ := List.cons.inj he
      apply (hturn t h).mono
      intro _ u hu
      exact .inr ⟨rfl, hu⟩
    · cases h

theorem processState_idle (h : (net.site i).Idle records)
    (hstate : ∀ v ∈ records, v.role = some m.role → v.stateCode ≠ state.code) :
    Yields (m.processState (environment ids i) send state) net fun _ net' =>
      Alters i (net.site i) net net' := by
  have hI : Steady m ids i send fun ns t =>
      ns = [default] ∧ False ∨ ns = [] ∧ Alters i (net.site i) net t :=
    steady_single (fun _ h => h.elim) fun _ h => h.elim
  apply (processState_yields hI state fun ns store hl => ?_).mono
  · rintro _ t (⟨-, ht⟩ | ⟨-, ht⟩)
    · exact ht.elim
    · exact ht
  · rw [Store.leaseNext_nothing _ _ (h.records ▸ hstate)] at hl
    cases hl
    exact .inr ⟨rfl, alters_setSite net i _⟩

def leasing (i : Fin n) (m : Manager) (v : Negotiation) (net : Network n) : Network n :=
  let s := (net.site i).store
  let lease : Lease := ⟨m.leaseHolder, net.now.later s.leaseDuration⟩
  net.setStore i { s with leases := s.leases.insert v.id lease }

theorem confined_leasing (i : Fin n) (m : Manager) (v : Negotiation) (net : Network n) :
    (focus i).Confined net (leasing i m v net) := confined_setStore net i _

theorem records_leasing (i : Fin n) (m : Manager) (v : Negotiation) (net : Network n) :
    ((leasing i m v net).site i).store.records = (net.site i).store.records := by
  rw [leasing, site_setStore]

theorem workload_leasing (i : Fin n) (m : Manager) (v : Negotiation) (net : Network n)
    (role : Role) : ((leasing i m v net).site i).workload role = (net.site i).workload role := by
  rw [leasing, site_setStore, Site.workload_store]

theorem grants_leasing (hid : v.id ≠ "") (hcount : v.stateCount ≠ 0)
    (hv : (net.site i).store.find? v.id = some v) :
    ((leasing i m v net).site i).store.Grants v m.leaseHolder := by
  refine ⟨hid, hcount, ?_, fun lease hlease => ?_⟩
  · rwa [Store.find?, records_leasing]
  · rw [leasing, site_setStore, Table.get?_insert, if_pos rfl] at hlease
    exact congrArg Lease.holder (Option.some.inj hlease).symm

theorem busy_leasing (h : (net.site i).Idle [v]) :
    ((leasing i m v net).site i).Busy m.leaseHolder v := by
  rw [leasing, site_setStore]
  refine ⟨h.toNothingPending.congr fun r => Site.workload_store .., h.records,
    fun key lease hl => ?_⟩
  · rw [Table.get?_insert, h.free] at hl
    split at hl
    · rename_i hkey
      cases hl
      exact ⟨hkey, rfl⟩
    · cases hl

theorem processState_single {Q : Network n → Prop} (h : (net.site i).Idle [v])
    (hcode : v.stateCode = state.code) (hrole : v.role = some m.role)
    (hbatch : m.options.batchSize ≠ 0)
    (hturn : Yields (m.processLeased (environment ids i) send v) (leasing i m v net)
      fun _ u => Q u) :
    Yields (m.processState (environment ids i) send state) net fun _ u => Q u := by
  have hI : Steady m ids i send fun ns t => ns = [v] ∧ t = leasing i m v net ∨ ns = [] ∧ Q t := by
    apply steady_single
    · rintro t rfl
      exact (busy_leasing h).toNothingPending
    · rintro t rfl
      exact hturn
  apply (processState_yields hI state fun ns store hl => ?_).mono
  · rintro _ t (⟨h, -⟩ | ⟨-, ht⟩)
    · cases h
    · exact ht
  · rw [Store.leaseNext_single _ _ h.records (h.free v.id) hbatch hcode hrole] at hl
    cases hl
    exact .inl ⟨rfl, rfl⟩

theorem drainCommands_idle (h : (net.site i).Idle records) (m : Manager) :
    Yields (m.drainCommands (environment ids i)) net fun _ net' =>
      Alters i (net.site i) net net' := by
  have hdequeue := CommandQueue.dequeue_empty (h.waiting m.role) m.options.commandBatchSize
  apply (takeCommands_yields m).bind
  rintro _ t ⟨rfl, ht⟩
  rw [Site.update_eq_self (by rw [Workload.mapQueue, hdequeue])] at ht
  rw [hdequeue]
  exact yields_pure.mpr ht

theorem passes_idle {states : List State} (h : (net.site i).Idle records)
    (hstates : ∀ v ∈ records, v.role = some m.role → ∀ state ∈ states, v.stateCode ≠ state.code) :
    Yields (total (m.processState (environment ids i) send) states) net fun _ net' =>
      Alters i (net.site i) net net' := by
  have hstep (state : State) (others : List State) (t : Network n)
      (ht : state :: others ⊆ states ∧ Alters i (net.site i) net t) :
      Yields (m.processState (environment ids i) send state) t fun _ u =>
        others ⊆ states ∧ Alters i (net.site i) net u := by
    obtain ⟨hsub, ht⟩ := ht
    rw [List.cons_subset] at hsub
    apply (processState_idle (ht.site ▸ h) fun v hv hr => hstates v hv hr state hsub.1).mono
    intro _ u hu
    rw [ht.site] at hu
    exact ⟨hsub.2, ht.trans hu⟩
  apply (total_yields (fun others t => others ⊆ states ∧ Alters i (net.site i) net t) hstep
    ⟨List.Subset.refl _, .refl net⟩).mono
  rintro _ t ⟨-, ht⟩
  exact ht

theorem runOnce_idle (h : (net.site i).Idle records)
    (hstates : ∀ v ∈ records, v.role = some m.role →
      ∀ state ∈ State.processable m.role, v.stateCode ≠ state.code) :
    Yields (m.runOnce (environment ids i) send) net fun _ net' =>
      Alters i (net.site i) net net' := by
  apply (drainCommands_idle h m).bind
  intro _ t ht
  apply (passes_idle (ht.site ▸ h) hstates).bind
  intro _ u hu
  rw [ht.site] at hu
  exact yields_pure.mpr (ht.trans hu)

end Rounds

end Network

structure Roster.Equips {n : Nat} (roster : Roster n) (k : Fin n) : Prop where
  typed : (roster.connector k).Typed
  participantId : (roster.connector k).participantId ≠ ""
  address : (roster.connector k).address ≠ ""
  callback : ∀ role, ((roster.connector k).manager role).options.callbackAddress =
    (roster.connector k).address
  batchSize : ∀ role, ((roster.connector k).manager role).options.batchSize ≠ 0

namespace Network

structure Party (n : Nat) where
  site : Fin n
  role : Role
  id : String

variable {n : Nat} {roster : Roster n} {net net' : Network n} {a b : Party n}
  {v w next next' : Negotiation} {state : State} {event : Event} {message : RemoteMessage}
  {note : Option RemoteMessage}

def Party.manager (a : Party n) (roster : Roster n) : Manager :=
  (roster.connector a.site).manager a.role

structure Party.Holds (a b : Party n) (v : Negotiation) (net : Network n) : Prop where
  idle : (net.site a.site).Idle [v]
  route : net.addresses.get? v.counterPartyAddress = some b.site
  id : v.id = a.id
  role : v.role = some a.role
  correlationId : v.correlationId = b.id
  named : a.id ≠ ""

structure BothHold (a b : Party n) (v w : Negotiation) (net : Network n) : Prop where
  own : a.Holds b v net
  peer : b.Holds a w net
  apart : a.site ≠ b.site

structure TurnBegun (a b : Party n) (holder : String) (v w : Negotiation) (net t : Network n) :
    Prop where
  now : t.now = net.now
  issued : t.issued = net.issued
  addresses : t.addresses = net.addresses
  busy : (t.site a.site).Busy holder v
  grants : (t.site a.site).store.Grants v holder
  peer : b.Holds a w t

theorem Party.Holds.keeps (h : a.Holds b v net) (hs : net'.site a.site = net.site a.site)
    (ha : net'.addresses = net.addresses) : a.Holds b v net' :=
  ⟨hs ▸ h.idle, ha ▸ h.route, h.id, h.role, h.correlationId, h.named⟩

theorem Party.Holds.successor (h : a.Holds b v net) (hb : b.id ≠ "") (hc : v.Continues next)
    {peer : String} (hidle : (net'.site a.site).Idle [v.successor next peer])
    (ha : net'.addresses = net.addresses) : a.Holds b (v.successor next peer) net' := by
  have hcorrelated : next.correlationId ≠ "" := by
    rw [hc.correlationId, h.correlationId]
    exact hb
  rw [successor_eq, if_neg hcorrelated] at hidle ⊢
  refine ⟨hidle, ?_, hc.id.trans h.id, hc.role.trans h.role,
    hc.correlationId.trans h.correlationId, h.named⟩
  rw [ha, hc.counterPartyAddress]
  exact h.route

theorem BothHold.symm (h : BothHold a b v w net) : BothHold b a w v net :=
  ⟨h.peer, h.own, h.apart.symm⟩

theorem BothHold.keeps (h : BothHold a b v w net) (hs : ∀ k, net'.site k = net.site k)
    (ha : net'.addresses = net.addresses) : BothHold a b v w net' :=
  ⟨h.own.keeps (hs _) ha, h.peer.keeps (hs _) ha, h.apart⟩

section Turns

variable (hroster : roster.Equips a.site) (h : BothHold a b v w net)
  (hcode : v.stateCode = state.code)
  (hv : v.stateCount ≠ 0)
include hroster h hcode hv

theorem BothHold.turn {Q : Network n → Prop}
    (hturn : ∀ t, TurnBegun a b (a.manager roster).leaseHolder v w net t →
      Yields ((a.manager roster).processLeased (environment roster.ids a.site)
        (send roster a.site) v) t fun _ u => Q u) :
    Yields ((a.manager roster).processState (environment roster.ids a.site) (send roster a.site)
      state) net fun _ net' => Q net' := by
  have hrole : v.role = some (a.manager roster).role :=
    h.own.role.trans (congrArg some (hroster.typed.manager a.role).symm)
  have hleasing := confined_leasing a.site (a.manager roster) v net
  have haddresses := addresses_of_confined hleasing
  have hbusy := busy_leasing (m := a.manager roster) h.own.idle
  apply processState_single h.own.idle hcode hrole (hroster.batchSize _)
  apply hturn (leasing a.site (a.manager roster) v net)
  refine ⟨rfl, rfl, haddresses, hbusy, hbusy.grants (h.own.id ▸ h.own.named) hv, ?_⟩
  exact h.peer.keeps (site_of_confined hleasing h.apart.symm) haddresses

theorem BothHold.silent (ht : v.transition (a.manager roster).turn net.now
      (if v.drawsId (a.manager roster).turn then roster.ids net.issued else "") =
        .applied next none) :
    Yields ((a.manager roster).processState (environment roster.ids a.site) (send roster a.site)
      state) net fun _ net' => BothHold a b (v.successor next "") w net' := by
  have hc := (row_of_transition ht).continues
  apply h.turn hroster hcode hv
  intro t hl
  rw [← hl.now, ← hl.issued] at ht
  apply (processLeased_silent ht hl.grants).mono
  intro _ u hu
  have haddresses := addresses_of_confined hu.toConfined
  refine ⟨h.own.successor h.peer.named hc ?_ (haddresses.trans hl.addresses), ?_, h.apart⟩
  · rw [hu.site]
    exact hl.busy.settle (hc.id_successor "")
  · exact hl.peer.keeps (site_of_confined hu.toConfined h.apart.symm) haddresses

theorem BothHold.speaks (hpeer : (roster.connector b.site).Typed) (hw : w.stateCount ≠ 0)
    (ht : v.transition (a.manager roster).turn net.now
      (if v.drawsId (a.manager roster).turn then roster.ids net.issued else "") =
        .applied next (some message))
    (hm : message.Means b.role event) (hkind : ∀ x, message = .event x → x.type = .finalized)
    (ht' : w.transition event net.now "" = .applied next' note) :
    Yields ((a.manager roster).processState (environment roster.ids a.site) (send roster a.site)
      state) net fun _ net' => BothHold a b (v.successor next w.id)
        (w.successor next' "") net' := by
  have hrow := row_of_transition ht
  have hc := hrow.continues
  have hc' := (row_of_transition ht').continues
  apply h.turn hroster hcode hv
  intro t hl
  rw [← hl.now, ← hl.issued] at ht
  rw [← hl.now] at ht'
  have hroute : t.addresses.get? message.destination = some b.site := by
    rw [hrow.routing.2, hl.addresses]
    exact h.own.route
  have hcorrelated : (t.site b.site).store.findByCorrelation? message.processId = some w := by
    rw [hrow.routing.1, h.own.id, ← h.peer.correlationId]
    apply hl.peer.idle.findByCorrelation?
    rw [h.peer.correlationId]
    exact h.own.named
  have hgrants := hl.peer.idle.grants (h.peer.id ▸ h.peer.named) hw ""
  apply (processLeased_exchanges hpeer ht hm hkind h.peer.role ht' hroute hcorrelated hgrants
    hl.grants fun hab => absurd hab h.apart).mono
  rintro _ net' ⟨u, u', hu, hu', hnet⟩
  have hsite : u'.site a.site = t.site a.site := by
    rw [site_of_confined hu'.toConfined h.apart, sites_of_keeps hu]
  have haddresses : net'.addresses = t.addresses := by
    rw [addresses_of_confined hnet.toConfined, addresses_of_confined hu'.toConfined,
      addresses_of_confined hu.toConfined]
  refine ⟨h.own.successor h.peer.named hc ?_ (haddresses.trans hl.addresses),
    hl.peer.successor h.own.named hc' ?_ haddresses, h.apart⟩
  · rw [hnet.site, hsite]
    exact hl.busy.settle (hc.id_successor _)
  · rw [site_of_confined hnet.toConfined h.apart.symm, hu'.site]
    exact hl.peer.idle.moveOn (hc'.id_successor "")

end Turns

end Network

end ContractNegotiation
