import ContractNegotiation.Proofs.Network.Delivery
import ContractNegotiation.Proofs.Network.Round

namespace ContractNegotiation

open ContractNegotiation.Action Negotiation Relation

theorem Accord.eq_of_refers {n : Nat} {address : Fin n → String} {F : Finder n} {k l m : Fin n}
    {v w x : Negotiation} (h : Accord address F) (hv : F k v.id = some v) (hw : F l w.id = some w)
    (href : w.correlationId = v.id) (hx : F m x.id = some x) (hxr : x.correlationId = v.id) :
    m = l ∧ x = w := by
  rcases h.partner_of_refers hw hv href with hwv | hvw
  · exact h.consumer_unique hv hwv hx hxr hw
  · exact h.provider_unique hv hvw hx hxr hw

theorem Store.mem_leaseNext {s t : Store} {code : Int} {role : Option Role} {batch : Nat}
    {holder : String} {now : Instant} {v : Negotiation} {ns : List Negotiation}
    (h : s.leaseNext code role batch holder now = (ns, t))
    (hroom : (s.candidates code role now).length ≤ batch) (hv : v ∈ s.candidates code role now) :
    v ∈ ns := by
  obtain ⟨rfl, -⟩ := Prod.mk.inj h
  rw [List.take_of_length_le (by rwa [List.length_mergeSort])]
  exact (List.mergeSort_perm _ _).mem_iff.mpr hv

namespace Negotiation

variable {v w : Negotiation}

structure Ongoing (v w : Negotiation) : Prop where
  active : v.state.isTerminal = false
  active' : w.state.isTerminal = false
  opposite : w.role ≠ v.role
  refers : v.correlationId = w.id
  referred : w.correlationId = v.id
  counted : v.stateCount ≠ 0
  counted' : w.stateCount ≠ 0
  spare : v.stateCount + 1 ≠ 0

structure TerminatingWith (v w : Negotiation) : Prop where
  state : v.stateCode = State.terminating.code
  active : w.state.isTerminal = false
  opposite : w.role ≠ v.role
  refers : v.correlationId = w.id
  referred : w.correlationId = v.id
  counted : v.stateCount ≠ 0
  counted' : w.stateCount ≠ 0

def declined (v : Negotiation) (now : Instant) (reason : String) : Negotiation :=
  v.successor { v.enter .terminating now with errorDetail := reason } ""

theorem declined_eq (v : Negotiation) (now : Instant) (reason : String) :
    v.declined now reason = { v with
      stateCode := State.terminating.code
      stateTimestamp := now.toMillis
      errorDetail := reason
      stateCount := v.stateCount + 1 } := by
  rw [declined, successor, correlate_empty]
  rfl

theorem Ongoing.declined (h : v.Ongoing w) (now : Instant) (reason : String) :
    (v.declined now reason).TerminatingWith w := by
  rw [declined_eq]
  exact ⟨rfl, h.active', h.opposite, h.refers, h.referred, h.spare, h.counted'⟩

structure Terminated (v : Negotiation) (reason : String) (x : Negotiation) : Prop where
  id : x.id = v.id
  role : x.role = v.role
  correlationId : x.correlationId = v.correlationId
  stateCode : x.stateCode = State.terminated.code
  errorDetail : x.errorDetail = reason

end Negotiation

namespace Network

variable {n : Nat} {roster : Roster n} {net net' net'' : Network n} {i j k l : Fin n} {role : Role}
  {v w x y : Negotiation} {id : String} {drawn : Nat} {ns : List Negotiation}

theorem Consistent.findByCorrelation? (h : Consistent roster net) (hv : net.finder k v.id = some v)
    (hw : net.finder l w.id = some w) (href : w.correlationId = v.id) :
    (net.site l).store.findByCorrelation? v.id = some w := by
  have hne := h.accord.nonempty k v.id v hv
  obtain ⟨y, hy⟩ := Store.exists_findByCorrelation? (Store.mem_of_find? hw) (href ▸ hne)
  rw [href] at hy
  obtain ⟨hmem, hyr, -⟩ := Store.correlationId_of_findByCorrelation? hy
  have hyf : net.finder l y.id = some y := (h.tidy l).find?_of_mem hmem
  obtain ⟨-, rfl⟩ := h.accord.eq_of_refers hv hw href hyf hyr
  exact hy

theorem finder_of_replaced {site : Site} (ha : Alters i site net net')
    (hrec : site.store.records = ((net.site i).store.replace w).records)
    (hw : net.finder i w.id = some v) : net'.finder = net.finder.set i w := by
  apply finder_of_confined ha.toConfined
  intro id
  have he : (net'.site i).store.find? id = ((net.site i).store.replace w).find? id := by
    rw [ha.site, Store.find?, hrec, Store.find?]
  rw [he, Store.find?_replace]
  split
  · rename_i hid
    subst hid
    rw [show (net.site i).store.find? w.id = some v from hw]
    rfl
  · rfl

theorem finder_of_sites (h : ∀ k, net'.site k = net.site k) : net'.finder = net.finder := by
  funext k id
  rw [finder, h k]
  rfl

def BothTerminated (k l : Fin n) (v w : Negotiation) (net : Network n) : Prop :=
  (∃ x, v.Terminated v.errorDetail x ∧ net.finder k v.id = some x) ∧
    ∃ x, w.Terminated v.errorDetail x ∧ net.finder l w.id = some x

theorem BothTerminated.states {now : Instant} {reason : String}
    (h : BothTerminated k l (v.declined now reason) w net) :
    (∃ x, net.finder k v.id = some x ∧ x.state = .terminated ∧ x.errorDetail = reason) ∧
      ∃ y, net.finder l w.id = some y ∧ y.state = .terminated ∧ y.errorDetail = reason := by
  rw [declined_eq] at h
  obtain ⟨⟨x, hx, hxf⟩, y, hy, hyf⟩ := h
  exact ⟨⟨x, hxf, state_eq hx.stateCode, hx.errorDetail⟩,
    y, hyf, state_eq hy.stateCode, hy.errorDetail⟩

/-- `v` can reach its partner, and a batch of its manager holds it beside all the other records that
are to be terminated. -/
structure RoutedWithRoom (k l : Fin n) (m : Manager) (v w : Negotiation) (net : Network n) :
    Prop where
  record : net.finder k v.id = some v
  partner : net.finder l w.id = some w
  route : net.addresses.get? v.counterPartyAddress = some l
  room : ∀ xs : List Negotiation, xs.Nodup → (∀ x ∈ xs, net.finder k x.id = some x ∧
    x.stateCode = State.terminating.code ∧ x.role = some m.role ∧ x.id ≠ v.id) →
    xs.length < m.options.batchSize

theorem RoutedWithRoom.keeps {m : Manager} (h : RoutedWithRoom k l m v w net)
    (hf : net'.finder = net.finder)
    (ha : net'.addresses = net.addresses) : RoutedWithRoom k l m v w net' := by
  constructor
  · rw [hf]
    exact h.record
  · rw [hf]
    exact h.partner
  · rw [ha]
    exact h.route
  · rw [hf]
    exact h.room

theorem routedWithRoom_of_length_lt {m : Manager} (hv : net.finder k v.id = some v)
    (hw : net.finder l w.id = some w) (hroute : net.addresses.get? v.counterPartyAddress = some l)
    (hroom : ((net.site k).store.records.filter fun x => x.state = .terminating ∧
      x.role = some m.role ∧ x.id ≠ v.id).length < m.options.batchSize) :
    RoutedWithRoom k l m v w net := by
  refine ⟨hv, hw, hroute, fun xs hnodup hxs => Nat.lt_of_le_of_lt ?_ hroom⟩
  apply (List.subperm_of_subset hnodup fun x hx => ?_).length_le
  obtain ⟨hf, hs, hx⟩ := hxs x hx
  exact List.mem_filter.mpr ⟨Store.mem_of_find? hf, by simp [state_eq hs, hx]⟩

structure ReadyToTerminate (k l : Fin n) (m : Manager) (v w : Negotiation) (net : Network n) : Prop
    extends RoutedWithRoom k l m v w net where
  due : ((net.site k).workload m.role).retries.entries.get? v.id = none
  unopposed : ∀ id, ((net.site k).workload m.role).queue.pending.get? id = none

section Frame

variable {m : Manager} (hp : v.TerminatingWith w) (hv : v.id ≠ id) (hw : w.id ≠ id)
include hp hv hw

theorem BothTerminated.touches (h : BothTerminated k l v w net) (ht : Touches i role id net net') :
    BothTerminated k l v w net' := by
  obtain ⟨⟨x, hx, hxf⟩, ⟨y, hy, hyf⟩⟩ := h
  refine ⟨⟨x, hx, ?_⟩, ⟨y, hy, ?_⟩⟩
  · rw [← hx.id] at hxf ⊢
    refine ht.spared k x (hx.id ▸ hv) ?_ hxf
    rwa [hx.correlationId, hp.refers]
  · rw [← hy.id] at hyf ⊢
    refine ht.spared l y (hy.id ▸ hw) ?_ hyf
    rwa [hy.correlationId, hp.referred]

theorem ReadyToTerminate.touches (h : ReadyToTerminate k l m v w net)
    (ht : Touches k m.role id net net') :
    ReadyToTerminate k l m v w net' where
  record := ht.spared k v hv (hp.refers ▸ hw) h.record
  partner := ht.spared l w hw (hp.referred ▸ hv) h.partner
  route := ht.addresses ▸ h.route
  due := by
    rcases ht.own.retries m.role v.id with he | hn | ⟨-, hid⟩
    · exact he.trans h.due
    · exact hn
    · exact absurd hid hv
  unopposed key := by
    rw [ht.own.pending]
    exact h.unopposed key
  room xs hnodup hxs := by
    refine h.room xs hnodup fun x hx => ?_
    obtain ⟨hf, hs, hx⟩ := hxs x hx
    exact ⟨ht.terminating k x (state_eq hs) hf, hs, hx⟩

end Frame

section Terminating

variable (h : ReadyToTerminate k l ((roster.connector k).manager role) v w net)
  (hp : v.TerminatingWith w)
  (hl : Leased roster k role (v :: ns) net)
include h hp hl

theorem ReadyToTerminate.ids_ne : v.id ≠ w.id :=
  fun hid => hp.opposite (congrArg Negotiation.role
    (hl.accord.eq_of_id h.record (hid ▸ h.partner)).2)

theorem ReadyToTerminate.grants :
    (net.site k).store.Grants v ((roster.connector k).manager role).leaseHolder :=
  ⟨hl.accord.nonempty k v.id v h.record, hp.counted, h.record, hl.lease v (List.mem_cons_self ..)⟩

variable (hb : Batch k ((roster.connector k).manager role).leaseHolder (v :: ns) net)
include hb

theorem ReadyToTerminate.partner_grants : (net.site l).store.Grants w "" where
  id := hl.accord.nonempty l w.id w h.partner
  counted := hp.counted'
  stored := h.partner
  lease lease hlease := by
    -- the partner is not in the batch, which is of the other role
    obtain ⟨rfl, hmem, -⟩ := hb.leased l w.id lease hlease
    obtain ⟨x, hx, hxid⟩ := List.mem_map.mp hmem
    have hxw : x = w := (hl.accord.eq_of_id h.partner (hxid ▸ hl.stored x hx)).2
    have hrole := (hl.roles x hx).trans (hl.roles v (List.mem_cons_self ..)).symm
    exact absurd (hxw ▸ hrole) hp.opposite

theorem ReadyToTerminate.turn (hw : roster.Wired drawn) :
    Yields (((roster.connector k).manager role).processLeased (environment roster.ids k)
      (send roster k) v) net fun _ net' => BothTerminated k l v w net' := by
  have hne := h.ids_ne hp hl
  obtain ⟨role', hr', -⟩ := (hl.accord.sound l w.id w h.partner).branch
  let next : Negotiation := v.enter .terminated net.now
  let next' : Negotiation := { w.enter .terminated net.now with errorDetail := v.errorDetail }
  have ht (agreementId : String) : v.transition ((roster.connector k).manager role).turn net.now
      agreementId = .applied next (some (.termination ⟨v.routing, v.errorDetail⟩)) := by
    simp only [Manager.turn, transition, advance, state_eq hp.state, if_true, next]
  have ht' : w.transition (.terminationReceived v.errorDetail) net.now "" =
      .applied next' none := by
    have hactive := hp.active
    have hs : w.state ≠ .terminated := fun hs => by simp [hs, State.isTerminal] at hactive
    simp [transition, hs, hactive, next']
  have hid : (v.successor next w.id).id = v.id :=
    (row_of_transition (ht "")).continues.id_successor _
  have hid' : (w.successor next' "").id = w.id :=
    (row_of_transition ht').continues.id_successor ""
  have hcorrelated := hl.toConsistent.findByCorrelation? h.record h.partner hp.referred
  apply (processLeased_exchanges (hw.typed l) (ht _) (.termination _ role') (by simp) hr' ht'
    h.route hcorrelated (h.partner_grants hp hl hb) (h.grants hp hl) fun _ => hne).mono
  rintro _ net' ⟨t, u, hat, hau, ha⟩
  have hkept : t.finder = net.finder := finder_of_sites (sites_of_keeps hat)
  have hfinder : u.finder = net.finder.set l (w.successor next' "") := by
    rw [← hkept]
    apply finder_of_replaced hau (by rw [Site.store_moveOn, sites_of_keeps hat])
    rw [hid', hkept]
    exact h.partner
  have hfinder' : net'.finder = u.finder.set k (v.successor next w.id) := by
    apply finder_of_replaced ha (Site.records_settle ..)
    rw [hid, hfinder, Finder.set_of_ne l (hid'.symm ▸ hne)]
    exact h.record
  constructor
  · refine ⟨v.successor next w.id, ?_, ?_⟩
    · constructor <;> simp [successor_eq, next, enter, hp.refers]
    · rw [hfinder', ← hid, Finder.set_self]
  · refine ⟨w.successor next' "", ?_, ?_⟩
    · constructor <;> simp [successor_eq, next', enter, hp.referred]
    · rw [hfinder', Finder.set_of_ne k (hid.symm ▸ hne.symm), hfinder, ← hid', Finder.set_self]

end Terminating

/-- While the manager works on a batch, the negotiation has ended or is going to, and the latter
with this batch if it has to. -/
structure DeclineInvariant (roster : Roster n) (drawn : Nat) (k l : Fin n) (role : Role)
    (v w : Negotiation) (last : Prop) (ns : List Negotiation) (net : Network n) : Prop where
  underway : Underway roster drawn k role ns net
  batch : Batch k ((roster.connector k).manager role).leaseHolder ns net
  progress : net.issued ≤ drawn →
    ReadyToTerminate k l ((roster.connector k).manager role) v w net ∧
        (last → v.id ∈ ns.map Negotiation.id) ∨
      BothTerminated k l v w net ∧ v.id ∉ ns.map Negotiation.id

section DeclineInvariant

variable {last : Prop} (hp : v.TerminatingWith w) (hr : v.role = some role)
include hp hr

theorem Leased.ne_opposite (hl : Leased roster k role (x :: ns) net) (hw : net.finder l id = some y)
    (hy : y.role = w.role) : id ≠ x.id := by
  intro hid
  have hx := hl.stored x (List.mem_cons_self ..)
  have hrole := hl.roles x (List.mem_cons_self ..)
  rw [← (hl.accord.eq_of_id hx (hid ▸ hw)).2, hy, ← hr] at hrole
  exact hp.opposite hrole

theorem DeclineInvariant.others (h : DeclineInvariant roster drawn k l role v w last (x :: ns) net)
    (hs : Settles k ((roster.connector k).manager role) x.id net true net')
    (hu : Underway roster drawn k role ns net') (hx : net.issued ≤ drawn → v.id ≠ x.id) :
    DeclineInvariant roster drawn k l role v w last ns net' := by
  refine ⟨hu, h.batch.settles hs, fun hd => ?_⟩
  replace hd := Nat.le_trans hs.issued hd
  have hl := h.underway.leased hd
  rcases h.progress hd with ⟨hi, hlast⟩ | ⟨hterminated, hmem⟩
  · have hwx := hl.ne_opposite hp hr hi.partner rfl
    refine .inl ⟨hi.touches hp (hx hd) hwx hs.toTouches, fun hlast' => ?_⟩
    rw [List.map_cons, List.mem_cons] at hlast
    exact (hlast hlast').resolve_left (hx hd)
  · obtain ⟨-, y, hy, hyf⟩ := id hterminated
    have hwx := hl.ne_opposite hp hr hyf hy.role
    refine .inr ⟨hterminated.touches hp (hx hd) hwx hs.toTouches, fun hmem' => hmem ?_⟩
    exact List.mem_cons_of_mem _ hmem'

theorem declineInvariant_steady (hw : roster.Wired drawn) :
    Steady ((roster.connector k).manager role) roster.ids k (send roster k)
      (DeclineInvariant roster drawn k l role v w last) where
  perm ns others net h hperm := by
    have hmem : v.id ∈ others.map Negotiation.id ↔ v.id ∈ ns.map Negotiation.id :=
      (hperm.map _).mem_iff
    refine ⟨h.underway.drop hperm.subperm, h.batch.perm hperm, fun hd => ?_⟩
    rw [hmem]
    exact h.progress hd
  skip x ns net h hskip := by
    have hends := (underway_preserved hw k role).release x ns net h.underway
    apply ((release_settles x.id).andEnds hends).mono
    rintro _ net' ⟨hs, hu⟩
    refine h.others hp hr hs hu fun hd hid => ?_
    rw [Site.isFree, ← hid] at hskip
    rcases h.progress hd with ⟨hi, -⟩ | ⟨-, hmem⟩
    · -- it would not have been given back
      simp [CommandQueue.hasPending, Table.contains, RetryLog.isDue, hi.unopposed, hi.due] at hskip
    · exact hmem (hid ▸ List.mem_cons_self ..)
  turn x ns net h := by
    have hends := (underway_preserved hw k role).turn x ns net h.underway
    have hsettles := (processLeased_settles hw h.batch.tidy).andEnds hends
    by_cases hx : net.issued ≤ drawn ∧ v.id = x.id
    · obtain ⟨hd, hid⟩ := hx
      have hl := h.underway.leased hd
      have hi : ReadyToTerminate k l ((roster.connector k).manager role) v w net := by
        refine (h.progress hd).elim (·.1) fun hterminated => ?_
        exact absurd (hid ▸ List.mem_cons_self ..) hterminated.2
      have hxf := hl.stored x (List.mem_cons_self ..)
      obtain rfl : v = x := (hl.accord.eq_of_id hxf (hid ▸ hi.record)).2
      apply ((hi.turn hp hl h.batch hw).and hsettles).mono
      rintro _ net' ⟨hterminated, hs, hu⟩
      refine ⟨hu, h.batch.settles hs, fun _ => .inr ⟨hterminated, ?_⟩⟩
      exact (List.nodup_cons.mp hl.nodup).1
    · apply hsettles.mono
      rintro _ net' ⟨hs, hu⟩
      exact h.others hp hr hs hu fun hd hid => hx ⟨hd, hid⟩

end DeclineInvariant

section Lease

variable {m : Manager} {store : Store} {now : Instant}

theorem ReadyToTerminate.candidates_le (h : ReadyToTerminate k l m v w net)
    (htidy : (net.site k).store.Tidy) :
    ((net.site k).store.candidates State.terminating.code (some m.role) now).length ≤
      m.options.batchSize := by
  have hnodup : ((net.site k).store.candidates State.terminating.code (some m.role) now).Nodup :=
    (List.Nodup.of_map _ htidy).filter _
  have hroom := h.room _ (hnodup.erase v) fun x hx => by
    obtain ⟨hne, hx⟩ := hnodup.mem_erase_iff.mp hx
    simp only [Store.candidates, List.mem_filter, Bool.and_eq_true, decide_eq_true_eq] at hx
    have hxf : net.finder k x.id = some x := htidy.find?_of_mem hx.1
    refine ⟨hxf, hx.2.1.1, hx.2.1.2, fun hid => hne ?_⟩
    rw [hid, h.record] at hxf
    exact (Option.some.inj hxf).symm
  rw [List.length_erase] at hroom
  split at hroom <;> omega

theorem finder_setStore (hrec : store.records = (net.site k).store.records) :
    (net.setStore k store).finder = net.finder := by
  apply finder_of_records (confined_setStore net k store)
  rw [show ((net.setStore k store).site k).store = store from store_setStore net k store, hrec]

theorem ReadyToTerminate.setStore (h : ReadyToTerminate k l m v w net)
    (hrec : store.records = (net.site k).store.records) :
    ReadyToTerminate k l m v w (net.setStore k store) := by
  refine ⟨h.toRoutedWithRoom.keeps (finder_setStore hrec) rfl, ?_, ?_⟩
  · rw [site_setStore, Site.workload_store]
    exact h.due
  · rw [site_setStore, Site.workload_store]
    exact h.unopposed

theorem DeclineInvariant.lease {state : State} {states : List State} (hw : roster.Wired drawn)
    (hp : v.TerminatingWith w) (hr : v.role = some role)
    (h : DeclineInvariant roster drawn k l role v w (.terminating ∉ state :: states) [] net)
    (hstate : state ≠ .terminated)
    (hl : (net.site k).store.leaseNext state.code (some ((roster.connector k).manager role).role)
      ((roster.connector k).manager role).options.batchSize
      ((roster.connector k).manager role).leaseHolder net.now = (ns, store)) :
    DeclineInvariant roster drawn k l role v w (.terminating ∉ states) ns
      (net.setStore k store) := by
  have hleases := Store.leases_of_leaseNext hl
  have hunleased := Batch.unleased h.batch
  have hstore : (focus k).store (net.setStore k store) = store := store_setStore net k store
  have hunderway := h.underway.lease hw (confined_setStore net k store) (by rwa [← hstore] at hl)
  refine ⟨hunderway, hunleased.lease hl, fun hd => ?_⟩
  rcases h.progress hd with ⟨hi, hlast⟩ | ⟨hterminated, -⟩
  · refine .inl ⟨hi.setStore hleases.records, fun hnot => ?_⟩
    -- polls of other states leave the record for the one that is still to come
    obtain rfl : state = .terminating := by
      by_contra hne
      have hmem := hlast (by simp [hnot, Ne.symm hne])
      simp at hmem
    apply List.mem_map_of_mem
    apply Store.mem_leaseNext hl (hi.candidates_le (h.batch.tidy k))
    simp [Store.candidates, Store.mem_of_find? hi.record, hp.state, hr, (hw.typed k).manager,
      Store.liveLease?, hunleased.free]
  · have hfinder := finder_setStore hleases.records
    refine .inr ⟨by rwa [BothTerminated, hfinder], fun hmem => ?_⟩
    obtain ⟨⟨x, hx, hxf⟩, -⟩ := hterminated
    obtain ⟨y, hy, hid⟩ := List.mem_map.mp hmem
    have hyf := (h.batch.tidy k).find?_of_mem (hleases.stored y hy)
    have hyx : y = x := Option.some.inj (hyf.symm.trans (hid ▸ hxf))
    have hcode := (hleases.stateCode y hy).symm.trans (hyx ▸ hx.stateCode)
    have hsame := congrArg State.ofCode hcode
    rw [State.ofCode_code, State.ofCode_code] at hsame
    exact hstate hsame

end Lease

theorem states_terminate (hw : roster.Wired drawn) (hp : v.TerminatingWith w)
    (hr : v.role = some role)
    {states : List State} (hstates : .terminated ∉ states)
    (h : DeclineInvariant roster drawn k l role v w (.terminating ∉ states) [] net) :
    Yields (total (((roster.connector k).manager role).processState (environment roster.ids k)
      (send roster k)) states) net fun _ net' =>
        net'.issued ≤ drawn → BothTerminated k l v w net' := by
  have hstep (state : State) (states : List State) (t : Network n)
      (ht : .terminated ∉ state :: states ∧
        DeclineInvariant roster drawn k l role v w (.terminating ∉ state :: states) [] t) :
      Yields (((roster.connector k).manager role).processState (environment roster.ids k)
        (send roster k) state) t fun _ u => .terminated ∉ states ∧
          DeclineInvariant roster drawn k l role v w (.terminating ∉ states) [] u := by
    obtain ⟨hstates, ht⟩ := ht
    rw [List.mem_cons, not_or] at hstates
    apply (processState_yields (declineInvariant_steady hp hr hw) state fun ns store hl =>
      ht.lease hw hp hr (Ne.symm hstates.1) hl).mono
    intro _ u hu
    exact ⟨hstates.2, hu⟩
  apply (total_yields (fun states t => .terminated ∉ states ∧
    DeclineInvariant roster drawn k l role v w (.terminating ∉ states) [] t) hstep
    ⟨hstates, h⟩).mono
  rintro _ net' ⟨-, h'⟩ hd
  refine (h'.progress hd).elim (fun hi => ?_) (·.1)
  have hmem := hi.2 (by simp)
  simp at hmem

section Declining

variable {ids : Nat → String} {m : Manager} {reason : String}

theorem decline_yields (hc : (roster.connector k).Typed) (hv : net.finder k id = some v)
    (hr : v.role = some role) : Yields
      (Service.decline (roster.connector k) (environment roster.ids k) id reason) net
      fun answer net' => answer = .ok v ∧ Acts roster net net' ∧ Alters k ((net.site k).update role
        (·.mapQueue (·.enqueue (.decline id reason)))) net net' := by
  have hanswer : Yields
      (Service.decline (roster.connector k) (environment roster.ids k) id reason) net
      fun answer net' => answer = .ok v ∧ Alters k ((net.site k).update role
        (·.mapQueue (·.enqueue (.decline id reason)))) net net' := by
    apply call_yields
    have hfind : Yields ((environment roster.ids k).find id) net fun found t =>
        found = some v ∧ t = net := ⟨_, _, rfl, hv, rfl⟩
    apply hfind.bind
    rintro _ t ⟨rfl, rfl⟩
    simp only [hr, Option.getD_some]
    apply (enqueue_yields ((roster.connector k).manager role) (.decline id reason)).bind
    intro _ u hu
    rw [hc.manager] at hu
    exact yields_pure.mpr ⟨rfl, hu⟩
  apply (hanswer.andEnds ends_after).mono
  rintro answer net' ⟨⟨ha, hs⟩, rfl⟩
  exact ⟨ha, .decline k id reason net, hs⟩

theorem drainCommands_one (hlimit : m.options.commandBatchSize ≠ 0) {c : QueuedCommand}
    (hq : ((net.site k).workload m.role).queue.waiting = [c]) :
    Yields (m.drainCommands (environment ids k)) net fun _ net' =>
      Alters k (((net.site k).update m.role (·.mapQueue fun q =>
        (q.dequeue m.options.commandBatchSize).2)).obey m c net.now net.now) net net' := by
  apply (takeCommands_yields m).bind
  rintro _ t ⟨rfl, ht⟩
  have hbatch :
      (((net.site k).workload m.role).queue.dequeue m.options.commandBatchSize).1 = [c] := by
    rw [CommandQueue.dequeue, hq, List.take_of_length_le]
    exact Nat.one_le_iff_ne_zero.mpr hlimit
  rw [hbatch]
  have heach : Yields (each (m.applyCommand (environment ids k)) [c]) t fun _ u =>
      Alters k ((t.site k).obey m c t.now t.now) t u := by
    apply (applyCommand_yields m c).bind
    intro _ u hu
    exact yields_pure.mpr hu
  apply heach.bind
  intro _ u hu
  rw [ht.site, ht.now] at hu
  exact yields_pure.mpr (ht.trans hu)

section Draining

variable (hlimit : m.options.commandBatchSize ≠ 0) (hunleased : Unleased net)
  (hq : ((net.site k).workload m.role).queue.waiting = [⟨.decline v.id reason, 0⟩])
  (hid : v.id ≠ "") (hr : v.role = some m.role) (ho : v.Ongoing w)
  (h : RoutedWithRoom k l m v w net)
include hlimit hunleased hq hid hr ho h

theorem drainCommands_declines : Yields (m.drainCommands (environment ids k)) net fun _ net' =>
    ∃ taken : Site, taken.store = (net.site k).store ∧
      (∀ id, (taken.workload m.role).queue.pending.get? id = none) ∧
        Alters k (taken.moveOn m.role (v.declined net.now reason)) net net' := by
  apply (drainCommands_one hlimit hq).mono
  intro _ net' ha
  have ht : v.transition (.decline reason) net.now "" = .applied
      { v.enter .terminating net.now with errorDetail := reason } none := by
    simp [transition, ho.active]
  obtain ⟨taken, htaken⟩ : ∃ s, s = (net.site k).update m.role (·.mapQueue fun q =>
      (q.dequeue m.options.commandBatchSize).2) := ⟨_, rfl⟩
  have hstore : taken.store = (net.site k).store := by rw [htaken, Site.store_update]
  have hg : taken.store.Grants v "" := by
    refine ⟨hid, ho.counted, hstore ▸ h.record, fun lease hlease => ?_⟩
    rw [hstore, hunleased.free] at hlease
    cases hlease
  have hsite : taken.obey m ⟨.decline v.id reason, 0⟩ net.now net.now =
      taken.moveOn m.role (v.declined net.now reason) := Site.obey_granted rfl hr hg ht
  rw [← htaken, hsite] at ha
  refine ⟨taken, hstore, ?_, ha⟩
  have htallied : taken.Tallied := by
    rw [htaken]
    exact (hunleased.tallied k).update m.role fun q hq => hq.dequeue _
  apply (htallied m.role).pending_of_empty
  rw [htaken, Site.workload_update, if_pos rfl]
  simp only [Workload.mapQueue, CommandQueue.dequeue, hq]
  exact List.drop_eq_nil_of_le (Nat.one_le_iff_ne_zero.mpr hlimit)

theorem drainCommands_readyToTerminate (hne : w.id ≠ v.id) :
    Yields (m.drainCommands (environment ids k)) net fun _ net' =>
      ReadyToTerminate k l m (v.declined net.now reason) w net' := by
  apply (drainCommands_declines hlimit hunleased hq hid hr ho h).mono
  rintro _ net' ⟨taken, hstore, hpending, ha⟩
  have hid' : (v.declined net.now reason).id = v.id := by rw [declined_eq]
  have hfinder : net'.finder = net.finder.set k (v.declined net.now reason) := by
    apply finder_of_replaced ha
    · rw [Site.store_moveOn, hstore]
    · rw [hid']
      exact h.record
  refine ⟨⟨?_, ?_, ?_, ?_⟩, ?_, ?_⟩
  · rw [hfinder, Finder.set_self]
  · rw [hfinder, Finder.set_of_ne k (hid' ▸ hne)]
    exact h.partner
  · rw [addresses_of_confined ha.toConfined, declined_eq]
    exact h.route
  · intro xs hnodup hxs
    refine h.room xs hnodup fun x hx => ?_
    obtain ⟨hf, hx⟩ := hxs x hx
    rw [hid'] at hx
    rw [hfinder, Finder.set_of_ne k (hid' ▸ hx.2.2)] at hf
    exact ⟨hf, hx⟩
  · rw [ha.site]
    exact Site.retries_moveOn ..
  · intro id
    rw [ha.site, (Site.eases_moveOn ..).pending]
    exact hpending id

end Draining

section Round

variable (hw : roster.Wired drawn) (hsettled : Settled roster drawn net) (hunleased : Unleased net)
  (hwaiting : ((net.site k).workload role).queue.waiting = [⟨.decline v.id reason, 0⟩])
  (hlimit : ((roster.connector k).manager role).options.commandBatchSize ≠ 0)
  (hr : v.role = some role) (ho : v.Ongoing w)
  (h : RoutedWithRoom k l ((roster.connector k).manager role) v w net) (hd : net.issued ≤ drawn)
include hw hsettled hunleased hwaiting hlimit hr ho h hd

theorem drainCommands_declineInvariant :
    Yields (((roster.connector k).manager role).drainCommands (environment roster.ids k)) net
      fun _ net' => DeclineInvariant roster drawn k l role (v.declined net.now reason) w
        (.terminating ∉ State.processable role) [] net' := by
  have hmr := (hw.typed k).manager role
  have haccord := (hsettled.consistent hd).accord
  have hne : w.id ≠ v.id := fun hid => ho.opposite
    (congrArg Negotiation.role (haccord.eq_of_id h.record (hid ▸ h.partner)).2)
  have hid := haccord.nonempty k v.id v h.record
  have hdrain : Yields (((roster.connector k).manager role).drainCommands
      (environment roster.ids k)) net fun _ t =>
        ReadyToTerminate k l ((roster.connector k).manager role)
          (v.declined net.now reason) w t :=
    drainCommands_readyToTerminate hlimit hunleased (hmr.symm ▸ hwaiting) hid
      (hmr.symm ▸ hr) ho h hne
  have hends := Manager.drainCommands_ends (environment_lawful roster.ids k)
    (underway_preserved hw k role) hsettled.underway
  apply ((hdrain.and (drainCommands_unleased hunleased _)).andEnds hends).mono
  rintro _ t ⟨⟨hi, hunleased', -⟩, hu⟩
  have hlast : State.terminating ∈ State.processable role := by cases role <;> decide
  exact ⟨hu, hunleased'.batch k _, fun _ => .inl ⟨hi, fun hnot => absurd hlast hnot⟩⟩

theorem runOnce_terminates : Yields (runOnce roster k role) net fun _ net' =>
    net'.issued ≤ drawn → BothTerminated k l (v.declined net.now reason) w net' := by
  have hmr := (hw.typed k).manager role
  have hstates : State.terminated ∉ State.processable role := by cases role <;> decide
  have hrole : (v.declined net.now reason).role = some role := by rw [declined_eq, hr]
  apply (drainCommands_declineInvariant hw hsettled hunleased hwaiting hlimit hr ho h hd).bind
  intro commands t ht
  rw [hmr]
  apply (states_terminate hw (ho.declined net.now reason) hrole hstates ht).bind
  intro records u hu
  exact yields_pure.mpr hu

end Round

theorem decline_terminates (hw : roster.Wired 0) (hunleased : Unleased net)
    (hv : net.finder k v.id = some v)
    (hr : v.role = some role) (hqueue : ((net.site k).workload role).queue.waiting = [])
    (hlimit : ((roster.connector k).manager role).options.commandBatchSize ≠ 0) :
    Yields (Service.decline (roster.connector k) (environment roster.ids k) v.id reason) net
      fun answer net' => answer = .ok v ∧ Yields (runOnce roster k role) net' fun _ final =>
        net.issued ≤ final.issued ∧ ∀ l w, roster.Wired final.issued →
          Settled roster final.issued net → v.Ongoing w →
          RoutedWithRoom k l ((roster.connector k).manager role) v w net →
            BothTerminated k l (v.declined net'.now reason) w final := by
  apply (decline_yields (hw.typed k) hv hr).mono
  rintro _ t ⟨rfl, hact, ha⟩
  have hunleased' := hunleased.acts hw hact
  -- how many ids must differ is known only after the round, so that it comes to an end goes first
  obtain ⟨count, final, hround, -, hissued⟩ :=
    runOnce_unleased hw hunleased' ((roster.connector k).manager role)
  refine ⟨rfl, count, final, hround, Nat.le_trans ha.issued hissued, fun l w hw hsettled ho h => ?_⟩
  have hwaiting : ((t.site k).workload role).queue.waiting = [⟨.decline v.id reason, 0⟩] := by
    rw [ha.site, Site.workload_update, if_pos rfl]
    simp only [Workload.mapQueue, CommandQueue.enqueue, CommandQueue.push, hqueue, List.nil_append]
  have hrouted : RoutedWithRoom k l ((roster.connector k).manager role) v w t := by
    apply h.keeps _ (addresses_of_confined ha.toConfined)
    apply finder_of_records ha.toConfined
    rw [ha.site, Site.store_update]
  obtain ⟨_, final', hround', hterminated⟩ :=
    runOnce_terminates hw (hsettled.acts hw hact) hunleased' hwaiting hlimit hr ho hrouted hissued
  rw [runOnce, hround] at hround'
  cases hround'
  exact hterminated (Nat.le_refl _)

end Declining

variable {settings : Vector Settings n} {draws : Nat → Identifier} {start : Network n}
  {c p : Negotiation}

theorem Built.unleased (h : Built settings start)
    (hidle : ∀ k role, (start.site k).workload role = {}) : Unleased start := by
  refine ⟨fun k => Store.tidy_of_records (h.records k), fun k role => ?_, fun k key => ?_⟩
  · rw [hidle]
    intro id
    rfl
  · have hs := h.store k
    unfold Store.ofSettings at hs
    split at hs
    · rw [← Except.ok.inj hs]
      rfl
    · cases hs

/-- Whatever has happened before, declining either record of a negotiation that neither side has
ended is accepted, and with the next round of the manager that owns it the negotiation has ended on
both sides, for the given reason. Nothing is said of the attempts that either record may be waiting
for. Both records have a version left, and the one that is declined has two. -/
theorem decline_reaches_both
    (haddress : Function.Injective fun i => (settings.get i).connectorOrDefault.address)
    (hcommands : ∀ k, (settings.get k).managerOrDefault.commandBatchSize ≠ 0)
    (hbuilt : Built settings start) (hidle : ∀ k role, (start.site k).workload role = {})
    (hrun : ReflTransGen (Acts (.ofSettings settings draws)) start net)
    (hc : c ∈ (net.site i).store.records) (hp : p ∈ (net.site j).store.records)
    (hcr : c.role = some .consumer) (hpr : p.role = some .provider)
    (href : p.correlationId = c.id)
    (hcs : c.state.isTerminal = false) (hps : p.state.isTerminal = false)
    (hi : net.addresses.get? (settings.get i).connectorOrDefault.address = some i)
    (hj : net.addresses.get? (settings.get j).connectorOrDefault.address = some j)
    (hside : (k = i ∧ role = .consumer ∧ v = c) ∨ (k = j ∧ role = .provider ∧ v = p))
    (hqueue : ((net.site k).workload role).queue.waiting = [])
    (hroom : ((net.site k).store.records.filter fun x =>
        x.state = .terminating ∧ x.role = some role ∧ x.id ≠ v.id).length <
      (settings.get k).managerOrDefault.batchSize.toNat)
    (hcc : c.stateCount ≠ 0) (hpc : p.stateCount ≠ 0) (hvc : v.stateCount + 1 ≠ 0)
    (reason : String) :
    Yields (Service.decline ((Roster.ofSettings settings draws).connector k)
        (environment (Roster.ofSettings settings draws).ids k) v.id reason) net
      fun answer net' => answer = .ok v ∧
        Yields (runOnce (.ofSettings settings draws) k role) net' fun _ final =>
          (∀ k < final.issued, ∀ l < final.issued, (draws k).text = (draws l).text → k = l) →
          ∃ c' p', (final.site i).store.find? c.id = some c' ∧
            (final.site j).store.find? p.id = some p' ∧
            c'.state = .terminated ∧ c'.errorDetail = reason ∧
            p'.state = .terminated ∧ p'.errorDetail = reason := by
  have hw : (Roster.ofSettings settings draws).Wired 0 := wired_ofSettings haddress (by simp)
  have hunleased : Unleased net := (hbuilt.unleased hidle).run hw hrun
  have found {k : Fin n} {x : Negotiation} (hx : x ∈ (net.site k).store.records) :
      net.finder k x.id = some x := (hunleased.tidy k).find?_of_mem hx
  have hv : net.finder k v.id = some v ∧ v.role = some role := by
    rcases hside with ⟨rfl, rfl, rfl⟩ | ⟨rfl, rfl, rfl⟩
    · exact ⟨found hc, hcr⟩
    · exact ⟨found hp, hpr⟩
  have hlimit : (((Roster.ofSettings settings draws).connector k).manager
      role).options.commandBatchSize ≠ 0 := by
    rw [options_ofSettings]
    exact fun h => hcommands k (UInt32.toNat_inj.mp h)
  apply (decline_terminates hw hunleased hv.1 hv.2 hqueue hlimit).mono
  rintro _ t ⟨rfl, hround⟩
  refine ⟨rfl, hround.mono ?_⟩
  rintro _ final ⟨hissued, hterminated⟩ hdistinct
  have hw : (Roster.ofSettings settings draws).Wired final.issued :=
    wired_ofSettings haddress hdistinct
  have hsettled := hbuilt.settled.run hw hrun
  have hcp := (hsettled.consistent hissued).accord.partners_of_requested (found hc) (found hp) hpr
    href
  have hne : p.role ≠ c.role := by simp [hcr, hpr]
  have hbatch : ((net.site k).store.records.filter fun x => x.state = .terminating ∧
      x.role = some (((Roster.ofSettings settings draws).connector k).manager role).role ∧
        x.id ≠ v.id).length <
      (((Roster.ofSettings settings draws).connector k).manager role).options.batchSize := by
    rw [options_ofSettings, (hw.typed k).manager]
    exact hroom
  have hroute (k : Fin n) : ((Roster.ofSettings settings draws).connector k).address = _ :=
    address_ofSettings k
  rw [← hroute] at hi hj
  rcases hside with ⟨rfl, rfl, rfl⟩ | ⟨rfl, rfl, rfl⟩
  · have hrouted := routedWithRoom_of_length_lt hv.1 (found hp) (hcp.toProvider ▸ hj) hbatch
    obtain ⟨⟨x, hxf, hx⟩, y, hyf, hy⟩ := (hterminated j p hw hsettled
      ⟨hcs, hps, hne, hcp.answered, href, hcc, hpc, hvc⟩ hrouted).states
    exact ⟨x, y, hxf, hyf, hx.1, hx.2, hy⟩
  · have hrouted := routedWithRoom_of_length_lt hv.1 (found hc) (hcp.toConsumer ▸ hi) hbatch
    obtain ⟨⟨x, hxf, hx⟩, y, hyf, hy⟩ := (hterminated i c hw hsettled
      ⟨hps, hcs, hne.symm, href, hcp.answered, hpc, hcc, hvc⟩ hrouted).states
    exact ⟨y, x, hyf, hxf, hy.1, hy.2, hx⟩

theorem strangers_idle (k : Fin 2) (role : Role) : (strangers.site k).workload role = {} := by
  match k, role with
  | 0, .consumer | 0, .provider | 1, .consumer | 1, .provider => rfl

theorem backingOff_of_strangers : ReflTransGen (Acts parties) strangers backingOff := by
  have begun : ReflTransGen (Acts parties) strangers strangers := .refl
  have registered := (begun.tail (.register 1 _)).tail (.register 0 _)
  have asked := registered.tail (.initiate 0 offered _)
  have parted := (asked.tail (.round 0 .consumer _)).tail (.unregister 0 _)
  exact (parted.tail (.round 1 .provider _)).tail (.register 0 _)

theorem decline_reaches_both_of_backing_off :
    ∃ p ∈ (backingOff.site 1).store.records,
      (backingOff.site 1).provider.retries.isDue p.id backingOff.now = false ∧
      Yields (Service.decline (parties.connector 1) (environment parties.ids 1) p.id "too late")
        backingOff fun answer net' => answer = .ok p ∧
          Yields (runOnce parties 1 .provider) net' fun _ final =>
            ∃ c' p', (final.site 0).store.find? p.correlationId = some c' ∧
              (final.site 1).store.find? p.id = some p' ∧
              c'.state = .terminated ∧ c'.errorDetail = "too late" ∧
              p'.state = .terminated ∧ p'.errorDetail = "too late" := by
  obtain ⟨c, hc⟩ : ∃ c, (backingOff.site 0).store.records = [c] :=
    List.length_eq_one_iff.mp (by decide +kernel)
  obtain ⟨p, hp⟩ : ∃ p, (backingOff.site 1).store.records = [p] :=
    List.length_eq_one_iff.mp (by decide +kernel)
  have hconsumer : (backingOff.site 0).store.records.map
      (fun c => (c.role, c.state, c.stateCount)) = [(some .consumer, .requested, 2)] := by
    decide +kernel
  have hprovider : (backingOff.site 1).store.records.map
      (fun p => (p.role, p.state, p.stateCount)) = [(some .provider, .agreeing, 2)] := by
    decide +kernel
  have href : (backingOff.site 1).store.records.map Negotiation.correlationId =
      (backingOff.site 0).store.records.map Negotiation.id := by decide +kernel
  have hwaits : ∀ p ∈ (backingOff.site 1).store.records,
      (backingOff.site 1).provider.retries.isDue p.id backingOff.now = false := by decide +kernel
  have hid : (backingOff.site 1).store.records.map Negotiation.id = [parties.ids 6] := by
    decide +kernel
  have haddress : Function.Injective fun i => (partySettings.get i).connectorOrDefault.address := by
    decide +kernel
  simp only [hc, hp, List.map_cons, List.map_nil, List.cons.injEq, and_true, Prod.mk.injEq]
    at hconsumer hprovider href hid
  obtain ⟨hcr, hcs, hcc⟩ := hconsumer
  obtain ⟨hpr, hps, hpc⟩ := hprovider
  have hcm : c ∈ (backingOff.site 0).store.records := by simp [hc]
  have hpm : p ∈ (backingOff.site 1).store.records := by simp [hp]
  refine ⟨p, hpm, hwaits p hpm, ?_⟩
  have hroom : ((backingOff.site 1).store.records.filter fun x => x.state = .terminating ∧
      x.role = some .provider ∧ x.id ≠ p.id).length <
        (partySettings.get 1).managerOrDefault.batchSize.toNat := by
    rw [hp, List.filter_cons_of_neg (by simp), List.filter_nil]
    decide
  have hdecline := decline_reaches_both haddress (by decide +kernel) strangers_built
    strangers_idle backingOff_of_strangers hcm hpm hcr hpr href (by rw [hcs]; rfl)
    (by rw [hps]; rfl) (by decide +kernel) (by decide +kernel) (.inr ⟨rfl, rfl, rfl⟩)
    (by decide +kernel) hroom (by rw [hcc]; decide)
    (by rw [hpc]; decide) (by rw [hpc]; decide) "too late"
  apply (hdecline.andEnds ends_after).mono
  rintro answer net' ⟨⟨rfl, hround⟩, rfl⟩
  refine ⟨rfl, ?_⟩
  apply (hround.andEnds ends_after).mono
  rintro _ final ⟨hends, rfl⟩
  rw [href]
  apply hends
  rw [hid]
  decide +kernel

end Network

end ContractNegotiation
