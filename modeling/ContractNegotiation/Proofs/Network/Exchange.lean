import ContractNegotiation.Proofs.Connector
import ContractNegotiation.Proofs.Network.Accord

namespace ContractNegotiation

open ContractNegotiation.Action Negotiation

/-- What building connectors provides for, and the first `drawn` ids being different. -/
structure Roster.Wired {n : Nat} (roster : Roster n) (drawn : Nat) : Prop where
  typed : ∀ k, (roster.connector k).Typed
  callback : ∀ k role,
    ((roster.connector k).manager role).options.callbackAddress = (roster.connector k).address
  address : Function.Injective fun k => (roster.connector k).address
  fresh : ∀ k < drawn, ∀ l < drawn, roster.ids k = roster.ids l → k = l
  nonempty : ∀ k, roster.ids k ≠ ""

namespace Network

variable {n : Nat} {roster : Roster n} {net net' net'' : Network n} {i j k : Fin n}
  {v w next : Negotiation} {event : Event} {agreementId peer : String} {role : Role} {id : String}
  {drawn : Nat}

def finder (net : Network n) : Finder n := fun k id => (net.site k).store.find? id

structure Orderly (roster : Roster n) (net : Network n) : Prop where
  tidy : ∀ k, (net.site k).store.Tidy
  book : ∀ a k, net.addresses.get? a = some k → a = (roster.connector k).address
  issued : ∀ k id v, net.finder k id = some v → ∃ m, m < net.issued ∧ id = roster.ids m

structure Consistent (roster : Roster n) (net : Network n) : Prop extends Orderly roster net where
  accord : Accord (fun k => (roster.connector k).address) net.finder

structure Puts (roster : Roster n) (j : Fin n) (w : Negotiation) (net net' : Network n) : Prop
    extends (focus j).Confined net net' where
  finder : net'.finder = net.finder.set j w
  tidy : (net.site j).store.Tidy → (net'.site j).store.Tidy
  leases : (net'.site j).store.leases = (net.site j).store.leases
  named : ∃ m, m < net'.issued ∧ w.id = roster.ids m

section Confined

variable (hc : (focus j).Confined net net')
include hc

theorem site_of_confined (hk : k ≠ j) : net'.site k = net.site k := by
  have h := congrFun (congrArg (·.1) hc.outside) k
  simpa [focus, hk] using h

theorem addresses_of_confined : net'.addresses = net.addresses :=
  congrArg (·.2.1) hc.outside

theorem finder_of_confined (h : ∀ id, (net'.site j).store.find? id =
    if id = w.id then some w else (net.site j).store.find? id) :
    net'.finder = net.finder.set j w := by
  funext k id
  by_cases hk : k = j
  · subst hk
    simp only [Network.finder, Finder.set, h, true_and]
  · simp only [Network.finder, Finder.set, site_of_confined hc hk, hk, false_and, if_false]

theorem puts_of_moved (h : Orderly roster net)
    (hm : (net.site j).store.Moved v event agreementId peer w (net'.site j).store) :
    Puts roster j w net net' where
  toConfined := hc
  finder := finder_of_confined hc hm.find?
  tidy := hm.tidy
  leases := hm.leases
  named := by
    obtain ⟨m, hlt, hid⟩ := h.issued j v.id v hm.stored
    exact ⟨m, Nat.lt_of_lt_of_le hlt hc.issued, hm.follows.id.trans hid⟩

theorem puts_of_opened (ho : (net.site j).store.Opened w (net'.site j).store) {m : Nat}
    (hm : m < net'.issued) (hid : w.id = roster.ids m) : Puts roster j w net net' where
  toConfined := hc
  finder := finder_of_confined hc ho.find?
  tidy := ho.tidy
  leases := ho.leases
  named := ⟨m, hm, hid⟩

end Confined

theorem store_of_keeps (hk : (focus j).Keeps net net') (k : Fin n) :
    (net'.site k).store = (net.site k).store := by
  by_cases hkj : k = j
  · exact hkj ▸ hk.store
  · rw [site_of_confined hk.toConfined hkj]

theorem finder_of_records (hc : (focus j).Confined net net')
    (hrec : (net'.site j).store.records = (net.site j).store.records) :
    net'.finder = net.finder := by
  funext k id
  by_cases hk : k = j
  · subst hk
    simp only [finder, Store.find?, hrec]
  · simp only [finder, site_of_confined hc hk]

theorem finder_of_keeps (hk : (focus j).Keeps net net') : net'.finder = net.finder :=
  finder_of_records hk.toConfined (congrArg Store.records hk.store)

theorem puts_of_keeps (h : Orderly roster net) (hk : (focus j).Keeps net net')
    (hv : net.finder j v.id = some v) : Puts roster j v net net' where
  toConfined := hk.toConfined
  finder := by rw [finder_of_keeps hk, Finder.set_eq_self hv]
  tidy ht := store_of_keeps hk j ▸ ht
  leases := by rw [store_of_keeps hk]
  named := by
    obtain ⟨m, hlt, hid⟩ := h.issued j v.id v hv
    exact ⟨m, Nat.lt_of_lt_of_le hlt hk.issued, hid⟩

theorem Orderly.puts (h : Orderly roster net) (hp : Puts roster j w net net') :
    Orderly roster net' where
  tidy k := by
    by_cases hk : k = j
    · exact hk ▸ hp.tidy (h.tidy j)
    · exact site_of_confined hp.toConfined hk ▸ h.tidy k
  book := addresses_of_confined hp.toConfined ▸ h.book
  issued k id v hv := by
    by_cases hk : k = j ∧ id = w.id
    · exact hk.2 ▸ hp.named
    · have hv : net.finder k id = some v := by
        rw [← hv, hp.finder]
        simp [Finder.set, hk]
      obtain ⟨m, hm, hid⟩ := h.issued k id v hv
      exact ⟨m, Nat.lt_of_lt_of_le hm hp.issued, hid⟩

theorem Orderly.fresh (h : Orderly roster net) (hw : roster.Wired drawn) {k : Nat}
    (hle : net.issued ≤ k) (hlt : k < drawn) (hid : id = roster.ids k) (l : Fin n) :
    net.finder l id = none := by
  cases hl : net.finder l id with
  | none => rfl
  | some x =>
    obtain ⟨m, hm, hid'⟩ := h.issued l id x hl
    have hmk : m < k := Nat.lt_of_lt_of_le hm hle
    have he := hw.fresh k hlt m (Nat.lt_trans hmk hlt) (hid.symm.trans hid')
    exact absurd he.symm (Nat.ne_of_lt hmk)

theorem Consistent.records (h : Consistent roster net) (hc : (focus j).Confined net net')
    (hrec : (net'.site j).store.records = (net.site j).store.records) :
    Consistent roster net' where
  tidy k := by
    by_cases hk : k = j
    · subst hk
      simpa only [Store.Tidy, hrec] using h.tidy k
    · exact site_of_confined hc hk ▸ h.tidy k
  book := addresses_of_confined hc ▸ h.book
  issued k id v hv := by
    rw [finder_of_records hc hrec] at hv
    obtain ⟨m, hm, hid⟩ := h.issued k id v hv
    exact ⟨m, Nat.lt_of_lt_of_le hm hc.issued, hid⟩
  accord := finder_of_records hc hrec ▸ h.accord

theorem Consistent.keeps (h : Consistent roster net) (hk : (focus j).Keeps net net') :
    Consistent roster net' := h.records hk.toConfined (congrArg Store.records hk.store)

theorem sound_of_moved {st t : Store} (hw : roster.Wired drawn) (hv : v.Sound)
    (hm : st.Moved v event agreementId peer w t) (he : event.Admissible v)
    (hid : v.drawsId event = true → ∃ k, agreementId = roster.ids k) : w.Sound := by
  refine hm.follows.sound hv he fun hd => ?_
  obtain ⟨k, rfl⟩ := hid hd
  exact hw.nonempty k

theorem Consistent.moveOwn (h : Consistent roster net) (hw : roster.Wired drawn) {now : Instant}
    (hc : (focus i).Confined net net')
    (hm : (net.site i).store.Moved v event agreementId "" (v.successor next "")
      (net'.site i).store)
    (hrow : Row v now agreementId event next none) (hown : event.IsOwn)
    (hid : v.drawsId event = true → ∃ k, agreementId = roster.ids k) :
    Consistent roster net' := by
  have hv : net.finder i v.id = some v := hm.stored
  have hp := puts_of_moved hc h.toOrderly hm
  have hsound := h.accord.sound i v.id v hv
  have hs := sound_of_moved hw hsound hm (hown.admissible v) hid
  refine ⟨h.toOrderly.puts hp, ?_⟩
  rw [hp.finder]
  obtain ⟨role, hrole, -⟩ := hsound.branch
  cases role with
  | consumer => exact h.accord.moveConsumer hv hrole hm.counted hrow hown hs
  | provider => exact h.accord.moveProvider hv hrole hm.counted hrow hown hs

theorem Consistent.moveSilently (h : Consistent roster net) (hw : roster.Wired drawn)
    (hc : (focus i).Confined net net')
    (hm : (net.site i).store.Moved v event agreementId "" w (net'.site i).store)
    (hown : event.IsOwn) (he : ∀ p c, event ≠ .process p c) : Consistent roster net' := by
  obtain ⟨now, next, message, ht, rfl⟩ := hm.follows
  have hrow := row_of_transition ht
  obtain rfl := hrow.silent he
  refine h.moveOwn hw hc hm hrow hown fun hd => ?_
  cases event with
  | process p c => exact absurd rfl (he p c)
  | _ => cases hd

inductive Delivered (roster : Roster n) (m : RemoteMessage) (net : Network n) :
    Except Fault DispatchResult → Network n → Prop where
  | refused {answer : DispatchResult} {net' : Network n} (j : Fin n) : (∀ peer, answer ≠ .ok peer) →
      (focus j).Keeps net net' → Delivered roster m net (.ok answer) net'
  | accepted {net' : Network n} (j : Fin n) (w : Negotiation) :
      net.addresses.get? m.destination = some j →
      Service.Reception (focus j) roster.ids net m (.ok (.ok w)) net' →
      Delivered roster m net (.ok (.ok w.id)) net'

theorem send_ends (hw : roster.Wired drawn) (htidy : ∀ k, (net.site k).store.Tidy) (i : Fin n)
    (m : RemoteMessage) : Ends (send roster i m) net (Delivered roster m net) := by
  refine ends_bind.mpr (ends_get.mpr ?_)
  dsimp only
  split
  · exact .refused i (by simp [Loopback.unreachable]) (.refl net)
  · rename_i j hj
    have hlaw := environment_lawful roster.ids j
    refine (Service.receive_ends hlaw (roster.connector j) (hw.typed j) (htidy j) m _).attempt ?_
    rintro (fault | result) t ht
    · have hk : (focus j).Keeps net t := by
        rcases ht with ⟨ht, -⟩ | ⟨r, hr, ht⟩
        · cases ht
        · cases r with
          | error fault => exact ht.keeps_of_refused (by simp)
          | ok => cases hr
      refine (hlaw.report _).bind_ends fun _ u hu => ?_
      exact .refused j (by simp) (hk.trans hu)
    · rcases ht with ⟨ht, hk⟩ | ⟨r, hr, ht⟩
      · obtain rfl := Except.ok.inj ht
        exact .refused j (by simp [Loopback.answer]) hk
      · cases r with
        | error => cases hr
        | ok outcome =>
          obtain rfl := Except.ok.inj hr
          cases outcome with
          | error refusal =>
            refine .refused j (fun peer => ?_) (ht.keeps_of_refused (by simp))
            simp only [Loopback.answer]
            split <;> simp
          | ok w => exact .accepted j w hj ht

structure Advances (net net' : Network n) : Prop where
  issued : net.issued ≤ net'.issued
  evolves : ∀ k, (net.site k).store.Evolves (net'.site k).store

theorem Advances.refl (net : Network n) : Advances net net := ⟨Nat.le_refl _, fun _ => .refl⟩

theorem Advances.trans (h : Advances net net') (h' : Advances net' net'') : Advances net net'' :=
  ⟨Nat.le_trans h.issued h'.issued, fun k => (h.evolves k).trans (h'.evolves k)⟩

theorem advances_of_confined (hc : (focus j).Confined net net')
    (he : (net.site j).store.Evolves (net'.site j).store) : Advances net net' := by
  refine ⟨hc.issued, fun k => ?_⟩
  by_cases hk : k = j
  · exact hk ▸ he
  · rw [site_of_confined hc hk]

theorem advances_of_records (hc : (focus j).Confined net net')
    (hrec : (net'.site j).store.records = (net.site j).store.records) : Advances net net' :=
  advances_of_confined hc (.single (.leases hrec))

theorem advances_of_keeps (hk : (focus j).Keeps net net') : Advances net net' :=
  advances_of_records hk.toConfined (congrArg Store.records hk.store)

theorem Delivered.advances {m : RemoteMessage} {r : Except Fault DispatchResult}
    (h : Delivered roster m net r net') (hw : roster.Wired drawn) : Advances net net' := by
  cases h with
  | refused j _ hk => exact advances_of_keeps hk
  | accepted j w _ hrec =>
    refine advances_of_confined hrec.confined ?_
    exact hrec.evolves hw.nonempty (fun _ _ h => h.admissible) fun _ h => h.first

theorem advances_of_turned {m : Manager} (hw : roster.Wired drawn)
    (ht : (focus i).Turned roster.ids m (Delivered roster) net v net') : Advances net net' := by
  have writes {t u : Network n} {event : Event} {agreementId peer holder : String}
      {next : Negotiation} (hwr : (focus i).Written t v next event agreementId peer holder u)
      (hadm : event.Admissible v)
      (hid : v.drawsId event = true → ∃ k, agreementId = roster.ids k) : Advances t u :=
    advances_of_confined hwr.confined (hwr.evolves hw.nonempty hadm hid)
  cases ht with
  | passed hk => exact advances_of_keeps hk
  | moved agreementId now next _ hid hwr => exact writes hwr trivial hid
  | sent agreementId now next m peer hk _ hid hdel hwr =>
    exact (advances_of_keeps hk).trans ((hdel.advances hw).trans (writes hwr trivial hid))
  | failed m r cause next hk _ hdel hwr =>
    refine (advances_of_keeps hk).trans ((hdel.advances hw).trans (writes hwr trivial ?_))
    exact fun hd => by cases hd
  | waits m r hk _ hdel hu =>
    exact (advances_of_keeps hk).trans ((hdel.advances hw).trans (advances_of_keeps hu))

theorem puts_of_reception (h : Consistent roster net) (hw : roster.Wired drawn) {m : RemoteMessage}
    (hr : Service.Reception (focus j) roster.ids net m (.ok (.ok w)) net')
    (hd : net'.issued ≤ drawn) : Puts roster j w net net' ∧
      ((∃ v, net.finder j v.id = some v ∧ v.correlationId = m.processId ∧ Heard m v w ∧ w.Sound) ∨
        (net.site j).store.Welcomes m w ∧ (∀ k, net.finder k w.id = none) ∧ w.id ≠ "") := by
  have stored {v : Negotiation} (hf : (net.site j).store.findByCorrelation? m.processId = some v) :
      net.finder j v.id = some v ∧ v.correlationId = m.processId := by
    obtain ⟨hv, hc, -⟩ := Store.correlationId_of_findByCorrelation? hf
    exact ⟨(h.tidy j).find?_of_mem hv, hc⟩
  cases hr with
  | refused _ hne => exact absurd rfl (hne w)
  | kept _ hk hknown =>
    obtain ⟨hv, hc⟩ := stored hknown.1
    refine ⟨puts_of_keeps h.toOrderly hk hv, .inl ⟨w, hv, hc, ?_, h.accord.sound j w.id w hv⟩⟩
    rcases hknown.2 with ⟨request, offer, hm, -, hrole, hrep⟩ | ⟨hs, termination, hm⟩
    · exact .repeated hm hrole hrep
    · exact .terminated hm hs
  | moved v w event agreementId hc hrec hid hm =>
    obtain ⟨hv, hcor⟩ := stored hrec.1
    have hs := sound_of_moved hw (h.accord.sound j v.id v hv) hm hrec.admissible hid
    refine ⟨puts_of_moved hc h.toOrderly hm, .inl ⟨v, hv, hcor, ?_, hs⟩⟩
    obtain ⟨now, next, message, ht, rfl⟩ := hm.follows
    obtain ⟨role, hrole, hmeans⟩ := hrec.2
    exact .moved hm.counted hrole hmeans (row_of_transition ht)
  | opened w k hc hle hlt hwid hwel ho =>
    have hfresh := h.fresh hw hle (Nat.lt_of_lt_of_le hlt hd) hwid
    exact ⟨puts_of_opened hc ho hlt hwid, .inr ⟨hwel, hfresh, ho.id⟩⟩

structure Answered (roster : Roster n) (i : Fin n) (v next : Negotiation) (role : Role) (j : Fin n)
    (w : Negotiation) (net net' : Network n) : Prop extends Puts roster j w net net' where
  others : ∀ x, net.finder j x.id = some x → x.role = some role → x.id ≠ w.id
  behind : v.stateCount = 0 → Consistent roster net'
  settles : ∀ net'', v.stateCount ≠ 0 → (v.successor next w.id).Sound →
    Puts roster i (v.successor next w.id) net' net'' → Consistent roster net''

section Accepted

variable {c p : Negotiation} {now : Instant} {participantId : String} {m : RemoteMessage}
  (h : Consistent roster net) (hw : roster.Wired drawn)
  (hj : net.addresses.get? m.destination = some j)
  (hrec : Service.Reception (focus j) roster.ids net m (.ok (.ok w)) net')
  (hd : net'.issued ≤ drawn)
include h hw hj hrec hd

theorem answered_of_unanswered (hc : net.finder i c.id = some c) (hr : c.role = some .consumer)
    (hu : c.Unanswered)
    (hrow : Row c now agreementId (.process participantId (roster.connector i).address) next
      (some m)) :
    Answered roster i c next .consumer j w net net' := by
  obtain ⟨hp, ⟨v, hv, hcor, -⟩ | ⟨hwel, hfresh, hid⟩⟩ := puts_of_reception h hw hrec hd
  · exact absurd (hcor.trans hrow.routing.1) (h.accord.not_refers_of_unanswered hc hr hu hv)
  · obtain ⟨request, o, rfl, ho, -, -, hstarts⟩ := hwel
    have hto : c.counterPartyAddress = (roster.connector j).address :=
      hrow.routing.2.symm.trans (h.book _ j hj)
    rw [hrow.request_callback.1, hrow.request_callback.2] at hstarts
    refine ⟨hp, fun x hx _ hxw => ?_, fun hcount => ?_, fun net'' _ hs hput => ?_⟩
    · rw [hxw, hfresh] at hx
      cases hx
    · rw [(hu.requesting hrow).2] at hcount
      cases hcount
    · refine ⟨(h.toOrderly.puts hp).puts hput, ?_⟩
      rw [hput.finder, hp.finder]
      exact h.accord.request hc hr hu hto hrow ho hfresh hid hstarts hs

theorem answered_of_consumer (hc : net.finder i c.id = some c) (hr : c.role = some .consumer)
    (hrow : Row c now agreementId (.process participantId (roster.connector i).address) next
      (some m)) :
    Answered roster i c next .consumer j w net net' := by
  rcases h.accord.ofConsumer i c.id c hc hr with hu | ⟨l, p, hpf, hcp⟩
  · exact answered_of_unanswered h hw hj hrec hd hc hr hu hrow
  obtain rfl : l = j := by
    refine hw.address (hcp.toProvider.symm.trans ?_)
    exact hrow.routing.2.symm.trans (h.book _ j hj)
  obtain ⟨hp, ⟨v, hv, hcor, heard, hs⟩ | ⟨hwel, -, -⟩⟩ := puts_of_reception h hw hrec hd
  · obtain ⟨-, rfl⟩ := h.accord.provider_unique hc hcp hv (hcor.trans hrow.routing.1) hpf
    have hsent := h.accord.consumerSends w.id hc hpf hcp hrow heard hs
    refine ⟨hp, fun x hx hxr hxw => ?_, fun hcount => ?_, fun net'' hcount hs' hput => ?_⟩
    · rw [hxw, heard.sameParty.id] at hx
      obtain ⟨-, rfl⟩ := h.accord.eq_of_id hv hx
      have hrole := hxr.symm.trans hcp.provider
      simp at hrole
    · refine ⟨h.toOrderly.puts hp, ?_⟩
      rw [hp.finder]
      exact hsent.2 hcount
    · refine ⟨(h.toOrderly.puts hp).puts hput, ?_⟩
      rw [hput.finder, hp.finder]
      exact hsent.1 hcount hs'
  · -- a request that opens a record has found none, but the partner refers to the sender
    exfalso
    obtain ⟨request, o, rfl, -, hid, hnone, -⟩ := hwel
    have hcor : p.correlationId = request.processId := hcp.requested.trans hrow.routing.1.symm
    obtain ⟨v, hv⟩ := Store.exists_findByCorrelation? (Store.mem_of_find? hpf) (hcor ▸ hid)
    obtain ⟨hmem, hvc, -⟩ := Store.correlationId_of_findByCorrelation? hv
    have hvf := (h.tidy l).find?_of_mem hmem
    obtain ⟨-, rfl⟩ := h.accord.provider_unique hc hcp hvf (hvc.trans hcp.requested) hpf
    exact hnone v (hcor ▸ hv) hcp.provider

theorem answered_of_provider (hp : net.finder i p.id = some p) (hr : p.role = some .provider)
    (hrow : Row p now agreementId (.process participantId (roster.connector i).address) next
      (some m)) :
    Answered roster i p next .provider j w net net' := by
  obtain ⟨l, c, hcf, hcp⟩ := h.accord.ofProvider i p.id p hp hr
  obtain rfl : l = j := by
    refine hw.address (hcp.toConsumer.symm.trans ?_)
    exact hrow.routing.2.symm.trans (h.book _ j hj)
  obtain ⟨hput, ⟨v, hv, hcor, heard, hs⟩ | ⟨hwel, -, -⟩⟩ := puts_of_reception h hw hrec hd
  · obtain ⟨-, rfl⟩ := h.accord.consumer_unique hp hcp hv (hcor.trans hrow.routing.1) hcf
    have hsent := h.accord.providerSends w.id hcf hp hcp hrow heard hs
    refine ⟨hput, fun x hx hxr hxw => ?_, fun hcount => ?_, fun net'' hcount hs' hput' => ?_⟩
    · rw [hxw, heard.sameParty.id] at hx
      obtain ⟨-, rfl⟩ := h.accord.eq_of_id hv hx
      have hrole := hxr.symm.trans hcp.consumer
      simp at hrole
    · refine ⟨h.toOrderly.puts hput, ?_⟩
      rw [hput.finder]
      exact hsent.2 hcount
    · refine ⟨(h.toOrderly.puts hput).puts hput', ?_⟩
      rw [hput'.finder, hput.finder]
      exact hsent.1 hcount hs'
  · obtain ⟨request, o, rfl, -⟩ := hwel
    have hrole := hrow.request_role.symm.trans hr
    simp at hrole

end Accepted

structure Spares (i : Fin n) (role : Role) (id : String) (net net' : Network n) : Prop where
  records : ∀ x, x.id ≠ id → x.role = some role → net.finder i x.id = some x →
    net'.finder i x.id = some x
  leases : (net'.site i).store.leases = (net.site i).store.leases

theorem Spares.trans (h : Spares i role id net net') (h' : Spares i role id net' net'') :
    Spares i role id net net'' where
  records x hid hr hx := h'.records x hid hr (h.records x hid hr hx)
  leases := h'.leases.trans h.leases

theorem spares_of_keeps (hk : (focus j).Keeps net net') : Spares i role id net net' where
  records x _ _ hx := by rw [finder_of_keeps hk, hx]
  leases := by rw [store_of_keeps hk]

theorem Puts.leases_eq (hp : Puts roster j w net net') (i : Fin n) :
    (net'.site i).store.leases = (net.site i).store.leases := by
  by_cases hij : i = j
  · exact hij ▸ hp.leases
  · rw [site_of_confined hp.toConfined hij]

theorem Puts.finder_eq (hp : Puts roster j w net net') (hv : net.finder i v.id = some v)
    (hne : net.finder j v.id = some v → v.id ≠ w.id) : net'.finder i v.id = some v := by
  rw [hp.finder, Finder.set, if_neg, hv]
  rintro ⟨rfl, hid⟩
  exact hne hv hid

theorem spares_of_puts (hp : Puts roster j w net net') (hne : ∀ x, net.finder j x.id = some x →
    x.role = some role → x.id ≠ id → x.id ≠ w.id) : Spares i role id net net' where
  records x hid hr hx := hp.finder_eq hx fun hx => hne x hx hr hid
  leases := hp.leases_eq i

theorem spares_of_moved (h : Orderly roster net) (hc : (focus i).Confined net net')
    (hm : (net.site i).store.Moved v event agreementId peer w (net'.site i).store) :
    Spares i role v.id net net' := by
  refine spares_of_puts (puts_of_moved hc h hm) fun x _ _ hx => ?_
  rwa [hm.follows.id]

theorem Answered.settle {holder : String} (hans : Answered roster i v next role j w net net')
    (h : Consistent roster net) (hw : roster.Wired drawn) (hv : net.finder i v.id = some v)
    (hr : v.role = some role)
    (hlease : ∀ lease, (net.site i).store.leases.get? v.id = some lease → lease.holder = holder)
    (hadm : event.Admissible v) (hid : v.drawsId event = true → ∃ k, agreementId = roster.ids k)
    (hwr : (focus i).Written net' v next event agreementId w.id holder net'') :
    Consistent roster net'' ∧ Spares i role v.id net net'' := by
  have hfirst : Spares i role v.id net net' :=
    spares_of_puts hans.toPuts fun x hx hxr _ => hans.others x hx hxr
  rcases hwr with ⟨hk, hng⟩ | ⟨hc, hm⟩
  · -- under the manager's own lease, and with the record as it was leased, only a state count of
    -- zero can stand in the way
    have hcount : v.stateCount = 0 := by
      by_contra hcount
      refine hng ⟨h.accord.nonempty i v.id v hv, hcount, ?_, ?_⟩
      · exact hans.finder_eq hv fun hx => hans.others v hx hr
      · simp only [focus, hans.leases_eq i]
        exact hlease
    exact ⟨(hans.behind hcount).keeps hk, hfirst.trans (spares_of_keeps hk)⟩
  · have horderly := h.toOrderly.puts hans.toPuts
    have hput := puts_of_moved hc horderly hm
    have hs := sound_of_moved hw (h.accord.sound i v.id v hv) hm hadm hid
    exact ⟨hans.settles net'' hm.counted hs hput, hfirst.trans (spares_of_moved horderly hc hm)⟩

theorem Consistent.turned (h : Consistent roster net) (hw : roster.Wired drawn)
    (hv : net.finder i v.id = some v) (hr : v.role = some role)
    (hlease : ∀ lease, (net.site i).store.leases.get? v.id = some lease →
      lease.holder = ((roster.connector i).manager role).leaseHolder)
    (ht : (focus i).Turned roster.ids ((roster.connector i).manager role) (Delivered roster) net v
      net') (hd : net'.issued ≤ drawn) : Consistent roster net' ∧ Spares i role v.id net net' := by
  have hturn : ((roster.connector i).manager role).turn = .process
      ((roster.connector i).manager role).options.participantId (roster.connector i).address := by
    rw [Manager.turn, hw.callback]
  have fails {t u : Network n} {cause : String} {next : Negotiation} {holder : String}
      (h : Consistent roster t) (hwr : (focus i).Written t v next (.fail cause) "" "" holder u) :
      Consistent roster u ∧ Spares i role v.id t u := by
    rcases hwr with ⟨hk, -⟩ | ⟨hc, hm⟩
    · exact ⟨h.keeps hk, spares_of_keeps hk⟩
    · exact ⟨h.moveSilently hw hc hm trivial (by simp), spares_of_moved h.toOrderly hc hm⟩
  cases ht with
  | passed hk => exact ⟨h.keeps hk, spares_of_keeps hk⟩
  | moved agreementId now next htr hid hwr =>
    rcases hwr with ⟨hk, -⟩ | ⟨hc, hm⟩
    · exact ⟨h.keeps hk, spares_of_keeps hk⟩
    · have hrow := row_of_transition htr
      refine ⟨h.moveOwn hw hc hm hrow (hturn ▸ trivial) hid, ?_⟩
      exact spares_of_moved h.toOrderly hc hm
  | @sent t t' _ agreementId now next m peer hk htr hid hdel hwr =>
    have ht := h.keeps hk
    have hvt : t.finder i v.id = some v := by rw [finder_of_keeps hk, hv]
    have hrow := row_of_transition htr
    rw [hturn] at hrow
    cases hdel with
    | refused _ hne => exact absurd rfl (hne peer)
    | accepted j w hj hrec =>
      have hd' := Nat.le_trans hwr.confined.issued hd
      have hans : Answered roster i v next role j w t t' := by
        cases role with
        | consumer => exact answered_of_consumer ht hw hj hrec hd' hvt hr hrow
        | provider => exact answered_of_provider ht hw hj hrec hd' hvt hr hrow
      have hl := store_of_keeps hk i
      obtain ⟨hu, hsp⟩ := hans.settle ht hw hvt hr (by rwa [hl]) (hturn ▸ trivial) hid hwr
      exact ⟨hu, (spares_of_keeps hk).trans hsp⟩
  | @failed t t' _ m r cause next hk hne hdel hwr =>
    cases hdel with
    | refused j _ hk' =>
      obtain ⟨hu, hsp⟩ := fails ((h.keeps hk).keeps hk') hwr
      exact ⟨hu, (spares_of_keeps hk).trans ((spares_of_keeps hk').trans hsp)⟩
    | accepted j w => exact absurd rfl (hne w.id)
  | @waits t t' _ m r hk hne hdel hu =>
    cases hdel with
    | refused j _ hk' =>
      refine ⟨((h.keeps hk).keeps hk').keeps hu, (spares_of_keeps hk).trans ?_⟩
      exact (spares_of_keeps hk').trans (spares_of_keeps hu)
    | accepted j w => exact absurd rfl (hne w.id)

end Network

end ContractNegotiation
