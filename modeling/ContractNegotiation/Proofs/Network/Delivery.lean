import ContractNegotiation.Proofs.Network.Turn

namespace ContractNegotiation

open ContractNegotiation.Action Negotiation

namespace Site

variable {s : Site} {role : Role} {m : Manager} {now : Instant} {holder : String}
  {v w next : Negotiation} {event : Event} {message : Option RemoteMessage}

def moveOn (s : Site) (role : Role) (w : Negotiation) : Site :=
  (s.record role (s.store.replace w) w.id).wake role

def settle (s : Site) (m : Manager) (now : Instant) (w : Negotiation) : Site :=
  (s.record m.role (s.store.replace w) w.id).release now m.leaseHolder w.id

@[simp] theorem store_moveOn (s : Site) (role : Role) (w : Negotiation) :
    (s.moveOn role w).store = s.store.replace w := by
  rw [moveOn, store_wake, store_record]

theorem eases_moveOn (s : Site) (role : Role) (w : Negotiation) : s.Eases (s.moveOn role w) := by
  apply Eases.trans (eases_record _ _ _) (eases_wake _ _)
  rfl

theorem retries_record (s : Site) (role : Role) (store : Store) (id : String) :
    ((s.record role store id).workload role).retries.entries.get? id = none := by
  rw [record, workload_update, if_pos rfl]
  simp only [Workload.clearRetries, RetryLog.clear, Table.get?_erase, if_true]

theorem retries_moveOn (s : Site) (role : Role) (w : Negotiation) :
    ((s.moveOn role w).workload role).retries.entries.get? w.id = none := by
  have hw : ((s.moveOn role w).workload role).retries =
      ((s.record role (s.store.replace w) w.id).workload role).retries := by
    rw [moveOn, wake, workload_update, if_pos rfl]
    rfl
  rw [hw]
  exact retries_record ..

theorem records_settle (s : Site) (m : Manager) (now : Instant) (w : Negotiation) :
    (s.settle m now w).store.records = (s.store.replace w).records := by
  rw [settle, records_release, store_record]

theorem attends_settle (s : Site) (m : Manager) (now : Instant) (w : Negotiation) :
    s.Attends m.role w.id (s.settle m now w) := by
  apply (eases_record _ _ _).attends.trans (attends_release _)
  rfl

theorem leases_settle (h : ∀ lease, s.store.leases.get? w.id = some lease →
    lease.holder = m.leaseHolder) : (s.settle m now w).store.leases.get? w.id = none := by
  have hrecord : ∀ lease, (s.record m.role (s.store.replace w) w.id).store.leases.get? w.id =
      some lease → lease.holder = m.leaseHolder := by
    rw [store_record]
    exact h
  exact (leases_release hrecord w.id).trans (if_pos rfl)

theorem retries_settle (s : Site) (m : Manager) (now : Instant) (w : Negotiation) :
    ((s.settle m now w).workload m.role).retries.entries.get? w.id = none := by
  rw [settle, workload_release]
  exact retries_record ..

theorem record_clearRetries (s : Site) (role : Role) (store : Store) (id : String) :
    (s.update role (·.clearRetries id)).record role store id = s.record role store id := by
  cases role <;>
    simp [record, update, workload, setWorkload, Workload.clearRetries, RetryLog.clear, Table.erase]

theorem apply_eq (ht : v.transition event now "" = .applied next message)
    (hg : s.store.Grants v "") :
    s.apply role now v event =
      (.ok (v.successor next ""), s.moveOn role (v.successor next "")) := by
  have hsave := hg.save (row_of_transition ht).continues "" now
  rw [correlate_empty] at hsave
  simp only [apply, ht, hsave, moveOn]

theorem obey_granted {c : QueuedCommand} {asked saved : Instant} (hv : c.command.target = v.id)
    (hr : v.role = some m.role) (hg : s.store.Grants v "")
    (ht : v.transition c.command.event asked "" = .applied next message) :
    s.obey m c asked saved = s.moveOn m.role (v.successor next "") := by
  have hsave := hg.save (row_of_transition ht).continues "" saved
  rw [correlate_empty] at hsave
  simp only [obey, hv, hg.stored, hr, ht, hsave, moveOn, ne_eq, not_true_eq_false, if_false]

end Site

namespace Network

variable {n : Nat} {roster : Roster n} {ids : Nat → String} {i j : Fin n} {net : Network n}
  {v next : Negotiation} {role : Role} {event : Event} {message : RemoteMessage}
  {note : Option RemoteMessage}

theorem sites_of_keeps {net' : Network n} (ha : Alters i (net.site i) net net') (k : Fin n) :
    net'.site k = net.site k := by
  by_cases hk : k = i
  · rw [hk, ha.site]
  · exact site_of_confined ha.toConfined hk

section Receiving

variable (hr : v.role = some role)
  (hv : (net.site j).store.findByCorrelation? message.processId = some v)
  (ht : v.transition event net.now "" = .applied next note)
  (hg : (net.site j).store.Grants v "")
include hr hv ht hg

theorem applyCorrelated_applies {m : Manager} (hm : m.role = role) (hd : v.drawsId event = false) :
    Yields (m.applyCorrelated (environment ids j) message.processId event) net fun r net' =>
      r = .ok (v.successor next "") ∧
        Alters j ((net.site j).moveOn role (v.successor next "")) net net' := by
  subst hm
  apply (findCorrelated_yields m message.processId).bind
  rintro found t ⟨rfl, rfl⟩
  rw [m.own_eq_some.mpr ⟨hv, hr⟩]
  apply (apply_yields m hd).mono
  rintro r net' ⟨rfl, ha⟩
  rw [Site.apply_eq ht hg] at ha ⊢
  exact ⟨rfl, ha⟩

theorem requested_applies {m : Manager} (hm : m.role = role) {request : RequestMessage}
    {offer : Offer} (hmessage : message = .request request) (ho : request.offer = some offer)
    (he : event = .requestReceived offer) (token : ClaimToken) :
    Yields (m.requested (environment ids j) token request) net fun r net' =>
      r = .ok (v.successor next "") ∧
        Alters j ((net.site j).moveOn role (v.successor next "")) net net' := by
  subst hm hmessage he
  replace hv : (net.site j).store.findByCorrelation? request.processId = some v := hv
  have hid : request.processId ≠ "" := (Store.correlationId_of_findByCorrelation? hv).2.2
  unfold Manager.requested
  simp only [if_neg hid, ho]
  apply (findCorrelated_yields m request.processId).bind
  rintro found t ⟨rfl, rfl⟩
  rw [m.own_eq_some.mpr ⟨hv, hr⟩]
  -- a repetition would come in another state
  have hstate : v.state = .offered := by
    cases row_of_transition ht with
    | requested _ _ hs => exact hs
  simp only [hstate, reduceCtorEq, false_and, if_false]
  apply (apply_yields m rfl).mono
  rintro r net' ⟨rfl, ha⟩
  rw [Site.apply_eq ht hg] at ha ⊢
  exact ⟨rfl, ha⟩

theorem receive_applies (hc : (roster.connector j).Typed) (hm : message.Means role event)
    (hkind : ∀ x, message = .event x → x.type = .finalized) (token : ClaimToken) :
    Yields (Service.receive (roster.connector j) (environment ids j) message token) net
      fun r net' => r = some (.ok (v.successor next "")) ∧
        Alters j ((net.site j).moveOn role (v.successor next "")) net net' := by
  have called (route : Route) (id : String)
      {block : Action (Network n) (Except Refusal Negotiation)}
      (hb : Yields block net fun r net' => r = .ok (v.successor next "") ∧
        Alters j ((net.site j).moveOn role (v.successor next "")) net net') :
      Yields (some <$> Service.call (environment ids j) route id block) net fun r net' =>
        r = some (.ok (v.successor next "")) ∧
          Alters j ((net.site j).moveOn role (v.successor next "")) net net' := by
    apply ((call_yields route id hb).map some).mono
    rintro _ net' ⟨r, rfl, rfl, ha⟩
    exact ⟨rfl, ha⟩
  cases hm with
  | request m offer ho =>
    exact called _ _ (requested_applies hr hv ht hg hc.provider rfl ho rfl token)
  | offer m => exact called _ _ (applyCorrelated_applies hr hv ht hg hc.consumer rfl)
  | agreement m hid =>
    apply called
    rw [Manager.agreed, if_neg hid]
    exact applyCorrelated_applies hr hv ht hg hc.consumer rfl
  | verification m => exact called _ _ (applyCorrelated_applies hr hv ht hg hc.provider rfl)
  | event m =>
    rw [Service.receive, if_pos (hkind m rfl)]
    exact called _ _ (applyCorrelated_applies hr hv ht hg hc.consumer rfl)
  | termination m =>
    apply called
    have hfind : Yields ((environment ids j).findByCorrelation m.processId) net fun found t =>
        found = some v ∧ t = net := ⟨_, _, rfl, hv, rfl⟩
    apply hfind.bind
    rintro _ t ⟨rfl, rfl⟩
    simp only [hr]
    exact applyCorrelated_applies hr hv ht hg (hc.manager role) rfl

theorem send_applies (hi : net.addresses.get? message.destination = some j)
    (hc : (roster.connector j).Typed) (hm : message.Means role event)
    (hkind : ∀ x, message = .event x → x.type = .finalized) :
    Yields (send roster i message) net fun answer net' => answer = .ok v.id ∧
      Alters j ((net.site j).moveOn role (v.successor next "")) net net' := by
  apply (send_yields hi (receive_applies hr hv ht hg hc hm hkind _)).mono
  rintro _ net' ⟨_, rfl, rfl, ha⟩
  refine ⟨?_, ha⟩
  simp only [Loopback.answer, (row_of_transition ht).continues.id_successor]

end Receiving

section Turns

variable {m : Manager} {send : Transport (Network n)}

theorem conclude_applies (hg : (net.site i).store.Grants v m.leaseHolder) (hc : v.Continues next)
    (peer : String) : Yields (m.conclude (environment ids i) v (next.correlate peer)) net
      fun _ net' => Alters i ((net.site i).record m.role
        ((net.site i).store.replace (v.successor next peer))
        (v.successor next peer).id) net net' := by
  apply (conclude_yields m v (next.correlate peer)).mono
  intro _ net' ha
  rwa [Site.conclude_eq hg hc] at ha

theorem processLeased_of_advance {R : Negotiation → Network n → Prop}
    (hid : ∀ w u, R w u → w.id = v.id)
    (h : Yields (m.advance (environment ids i) send v) net fun settled t => settled = false ∧
      ∃ w u, R w u ∧ Alters i ((u.site i).record m.role ((u.site i).store.replace w) w.id) u t) :
    Yields (m.processLeased (environment ids i) send v) net fun _ net' =>
      ∃ w u, R w u ∧ Alters i ((u.site i).settle m u.now w) u net' := by
  apply h.attempt.bind
  rintro _ t ⟨_, rfl, rfl, w, u, hu, ha⟩
  apply (release_yields m v.id).mono
  intro _ net' hr
  rw [ha.site, ha.now, ← hid w u hu] at hr
  exact ⟨w, u, hu, ha.trans hr⟩

theorem processLeased_silent (ht : v.transition m.turn net.now
      (if v.drawsId m.turn then ids net.issued else "") = .applied next none)
    (hg : (net.site i).store.Grants v m.leaseHolder) :
    Yields (m.processLeased (environment ids i) send v) net fun _ net' =>
      Alters i ((net.site i).settle m net.now (v.successor next "")) net net' := by
  have hc := (row_of_transition ht).continues
  have hadvance : Yields (m.advance (environment ids i) send v) net fun settled t =>
      settled = false ∧ ∃ w u, (w = v.successor next "" ∧ u = net) ∧
        Alters i ((u.site i).record m.role ((u.site i).store.replace w) w.id) u t := by
    apply (transition_yields v m.turn).bind
    rintro outcome t ⟨rfl, ha⟩
    rw [ht]
    have hconclude : Yields (m.conclude (environment ids i) v next) t _ :=
      correlate_empty next ▸ conclude_applies (ha.site.symm ▸ hg) hc ""
    apply hconclude.bind
    intro _ u hu
    rw [ha.site] at hu
    exact yields_pure.mpr ⟨rfl, _, net, ⟨rfl, rfl⟩, ha.trans hu⟩
  apply (processLeased_of_advance _ hadvance).mono
  · rintro _ net' ⟨_, _, ⟨rfl, rfl⟩, ha⟩
    exact ha
  · rintro _ _ ⟨rfl, -⟩
    exact hc.id_successor ""

theorem processLeased_accepted {R : String → Network n → Prop}
    (ht : v.transition m.turn net.now
      (if v.drawsId m.turn then ids net.issued else "") = .applied next (some message))
    (hsend : ∀ t, Alters i (net.site i) net t →
      Yields (send message) t fun answer u => ∃ peer, answer = .ok peer ∧ R peer u)
    (hg : ∀ peer u, R peer u → (u.site i).store.Grants v m.leaseHolder) :
    Yields (m.processLeased (environment ids i) send v) net fun _ net' => ∃ peer u, R peer u ∧
      Alters i ((u.site i).settle m u.now (v.successor next peer)) u net' := by
  have hc := (row_of_transition ht).continues
  have hadvance : Yields (m.advance (environment ids i) send v) net fun settled t =>
      settled = false ∧ ∃ w u, (∃ peer, w = v.successor next peer ∧ R peer u) ∧
        Alters i ((u.site i).record m.role ((u.site i).store.replace w) w.id) u t := by
    apply (transition_yields v m.turn).bind
    rintro outcome t ⟨rfl, ha⟩
    rw [ht]
    apply ((hsend t ha).bind _ : Yields (m.deliver (environment ids i) send v next message) t _)
    rintro _ u ⟨peer, rfl, hu⟩
    apply (clear_yields m v.id).bind
    intro _ u' hu'
    have hg' : (u'.site i).store.Grants v m.leaseHolder := by
      rw [hu'.site, Site.store_update]
      exact hg peer u hu
    apply (conclude_applies hg' hc peer).bind
    intro _ t' ht'
    rw [hu'.site, Site.store_update, hc.id_successor, Site.record_clearRetries] at ht'
    refine yields_pure.mpr ⟨rfl, _, u, ⟨peer, rfl, hu⟩, ?_⟩
    rw [hc.id_successor]
    exact hu'.trans ht'
  apply (processLeased_of_advance _ hadvance).mono
  · rintro _ net' ⟨_, u, ⟨peer, rfl, hu⟩, ha⟩
    exact ⟨peer, u, hu, ha⟩
  · rintro _ _ ⟨peer, rfl, -⟩
    exact hc.id_successor peer

end Turns

theorem processLeased_exchanges {m : Manager} {w next' : Negotiation}
    (hc : (roster.connector j).Typed)
    (ht : v.transition m.turn net.now
      (if v.drawsId m.turn then roster.ids net.issued else "") = .applied next (some message))
    (hm : message.Means role event) (hkind : ∀ x, message = .event x → x.type = .finalized)
    (hr : w.role = some role) (ht' : w.transition event net.now "" = .applied next' note)
    (hi : net.addresses.get? message.destination = some j)
    (hw : (net.site j).store.findByCorrelation? message.processId = some w)
    (hgw : (net.site j).store.Grants w "") (hgv : (net.site i).store.Grants v m.leaseHolder)
    (hne : i = j → v.id ≠ w.id) :
    Yields (m.processLeased (environment roster.ids i) (send roster i) v) net fun _ net' =>
      ∃ t u, Alters i (net.site i) net t ∧
        Alters j ((net.site j).moveOn role (w.successor next' "")) t u ∧
        Alters i ((u.site i).settle m u.now (v.successor next w.id)) u net' := by
  have hsent (t : Network n) (ha : Alters i (net.site i) net t) :
      Yields (send roster i message) t fun answer u => ∃ peer, answer = .ok peer ∧
        peer = w.id ∧ ∃ t, Alters i (net.site i) net t ∧
          Alters j ((net.site j).moveOn role (w.successor next' "")) t u := by
    have hsite := sites_of_keeps ha j
    rw [← hsite] at hw hgw
    rw [← ha.now] at ht'
    rw [← addresses_of_confined ha.toConfined] at hi
    apply (send_applies hr hw ht' hgw hi hc hm hkind).mono
    rintro answer u ⟨rfl, hu⟩
    exact ⟨_, rfl, rfl, t, ha, hsite ▸ hu⟩
  have hgranted (peer : String) (u : Network n) (hu : peer = w.id ∧ ∃ t,
      Alters i (net.site i) net t ∧
        Alters j ((net.site j).moveOn role (w.successor next' "")) t u) :
      (u.site i).store.Grants v m.leaseHolder := by
    obtain ⟨-, t, ha, hu⟩ := hu
    by_cases hij : i = j
    · subst hij
      rw [hu.site, Site.store_moveOn]
      apply hgv.replace
      rw [(row_of_transition ht').continues.id_successor]
      exact hne rfl
    · rwa [site_of_confined hu.toConfined hij, sites_of_keeps ha]
  apply (processLeased_accepted ht hsent hgranted).mono
  rintro _ net' ⟨_, u, ⟨rfl, t, ha, hu⟩, hs⟩
  exact ⟨t, u, ha, hu, hs⟩

end Network

end ContractNegotiation
