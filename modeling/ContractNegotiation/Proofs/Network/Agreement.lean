import ContractNegotiation.Host
import ContractNegotiation.Proofs.Network.Exchange

namespace ContractNegotiation

open ContractNegotiation.Action Negotiation Relation

namespace Network

variable {n : Nat} {roster : Roster n} {net net' : Network n} {i j : Fin n} {role : Role}
  {drawn : Nat}

structure Leased (roster : Roster n) (i : Fin n) (role : Role) (leased : List Negotiation)
    (net : Network n) : Prop extends Consistent roster net where
  nodup : (leased.map Negotiation.id).Nodup
  stored : ∀ v ∈ leased, net.finder i v.id = some v
  roles : ∀ v ∈ leased, v.role = some role
  lease : ∀ v ∈ leased, ∀ lease, (net.site i).store.leases.get? v.id = some lease →
    lease.holder = ((roster.connector i).manager role).leaseHolder

theorem leased_nil (h : Consistent roster net) : Leased roster i role [] net :=
  ⟨h, List.nodup_nil, by simp, by simp, by simp⟩

theorem Leased.tail {v : Negotiation} {leased : List Negotiation}
    (h : Leased roster i role (v :: leased) net) (hc : Consistent roster net')
    (hstored : ∀ x, x.id ≠ v.id → x.role = some role → net.finder i x.id = some x →
      net'.finder i x.id = some x)
    (hleases : ∀ id, id ≠ v.id →
      (net'.site i).store.leases.get? id = (net.site i).store.leases.get? id) :
    Leased roster i role leased net' := by
  have hnodup := h.nodup
  rw [List.map_cons, List.nodup_cons] at hnodup
  have hne (x : Negotiation) (hx : x ∈ leased) : x.id ≠ v.id := by
    intro hid
    exact hnodup.1 (hid ▸ List.mem_map_of_mem hx)
  refine ⟨hc, hnodup.2, fun x hx => ?_, fun x hx => ?_, fun x hx => ?_⟩
  · have hx' := List.mem_cons_of_mem v hx
    exact hstored x (hne x hx) (h.roles x hx') (h.stored x hx')
  · exact h.roles x (List.mem_cons_of_mem v hx)
  · rw [hleases x.id (hne x hx)]
    exact h.lease x (List.mem_cons_of_mem v hx)

/-- A round of the manager of a role. While no more than `drawn` ids have been handed out, the
network is consistent. -/
structure Underway (roster : Roster n) (drawn : Nat) (i : Fin n) (role : Role)
    (leased : List Negotiation) (net : Network n) : Prop where
  tidy : ∀ k, (net.site k).store.Tidy
  includes : ∀ v ∈ leased, (net.site i).store.Includes v
  leased : net.issued ≤ drawn → Leased roster i role leased net

theorem Underway.advance {leased others : List Negotiation}
    (h : Underway roster drawn i role leased net) (ha : Advances net net')
    (hsub : others ⊆ leased)
    (hl : Leased roster i role leased net → net'.issued ≤ drawn →
      Leased roster i role others net') : Underway roster drawn i role others net' where
  tidy k := (ha.evolves k).tidy (h.tidy k)
  includes v hv := (ha.evolves i).includes (h.includes v (hsub hv))
  leased hd := hl (h.leased (Nat.le_trans ha.issued hd)) hd

theorem Underway.drop {leased others : List Negotiation}
    (h : Underway roster drawn i role leased net) (hsub : others.Subperm leased) :
    Underway roster drawn i role others net := by
  refine h.advance (.refl net) hsub.subset fun hl _ => ?_
  obtain ⟨kept, hperm, hkept⟩ := hsub
  have hmem (x : Negotiation) (hx : x ∈ others) : x ∈ leased :=
    hkept.subset (hperm.mem_iff.mpr hx)
  refine ⟨hl.toConsistent, ?_, fun x hx => hl.stored x (hmem x hx),
    fun x hx => hl.roles x (hmem x hx), fun x hx => hl.lease x (hmem x hx)⟩
  exact (hperm.map _).nodup_iff.mp (hl.nodup.sublist (hkept.map _))

theorem Underway.keeps {leased : List Negotiation} (h : Underway roster drawn i role leased net)
    (hk : (focus i).Keeps net net') : Underway roster drawn i role leased net' := by
  refine h.advance (advances_of_keeps hk) (List.Subset.refl _) fun hl _ => ?_
  refine ⟨hl.toConsistent.keeps hk, hl.nodup, ?_, hl.roles, ?_⟩
  · rw [finder_of_keeps hk]
    exact hl.stored
  · rw [store_of_keeps hk]
    exact hl.lease

section Rounds

variable (hw : roster.Wired drawn)
include hw

theorem Underway.applyCommand (h : Underway roster drawn i role [] net) (c : QueuedCommand) :
    Ends (((roster.connector i).manager role).applyCommand (environment roster.ids i) c) net
      fun _ net' => Underway roster drawn i role [] net' := by
  refine (Manager.applyCommand_ends (environment_lawful roster.ids i) c).mono ?_
  rintro r net' (hk | ⟨v, w, agreementId, hc, -, hm⟩)
  · exact h.keeps hk
  · have hown : c.command.event.IsOwn := by cases c.command <;> trivial
    have hsilent (a b : String) : c.command.event ≠ .process a b := by
      cases c.command <;> simp [Command.event]
    have ha := advances_of_confined hc (.single (Manager.write_of_command hm))
    refine h.advance ha (List.Subset.refl _) fun hl _ => ?_
    exact leased_nil (hl.toConsistent.moveSilently hw hc hm hown hsilent)

theorem Underway.lease (h : Underway roster drawn i role [] net) (hc : (focus i).Confined net net')
    {code : Int} {batch : Nat} {now : Instant} {leased : List Negotiation}
    (hl : (net.site i).store.leaseNext code (some ((roster.connector i).manager role).role) batch
      ((roster.connector i).manager role).leaseHolder now = (leased, (net'.site i).store)) :
    Underway roster drawn i role leased net' := by
  replace hl := Store.leases_of_leaseNext hl
  have hrec : (net'.site i).store.records = (net.site i).store.records := hl.records
  have ha := advances_of_records hc hrec
  have hstored (v : Negotiation) (hv : v ∈ leased) : net.finder i v.id = some v :=
    (h.tidy i).find?_of_mem (hl.stored v hv)
  refine ⟨fun k => (ha.evolves k).tidy (h.tidy k), fun v hv => ?_, fun hd => ?_⟩
  · exact (ha.evolves i).includes (Store.includes_of_find? (hstored v hv))
  · have hold := h.leased (Nat.le_trans hc.issued hd)
    refine ⟨hold.toConsistent.records hc hrec, hl.nodup (h.tidy i), fun v hv => ?_,
      fun v hv => ?_, fun v hv lease hlease => ?_⟩
    · rw [finder_of_records hc hrec]
      exact hstored v hv
    · rw [hl.role v hv, (hw.typed i).manager]
    · obtain ⟨lease', hlease', hholder⟩ := hl.held v hv
      obtain rfl := Option.some.inj (hlease.symm.trans hlease')
      exact hholder

theorem Underway.turned {v : Negotiation} {leased : List Negotiation}
    (h : Underway roster drawn i role (v :: leased) net) :
    Ends (((roster.connector i).manager role).processLeased (environment roster.ids i)
      (send roster i) v) net fun _ net' => ∃ u, (focus i).Turned roster.ids
        ((roster.connector i).manager role) (Delivered roster) net v u ∧
          (focus i).Released v.id u net' := by
  have hv := h.includes v (List.mem_cons_self ..)
  have hsends (message : RemoteMessage) (u : Network n) (hu : (focus i).Keeps net u) :
      Ends (send roster i message) u fun r u' =>
        Delivered roster message u r u' ∧ ((focus i).store u').Includes v := by
    have htidy (k : Fin n) : (u.site k).store.Tidy := store_of_keeps hu k ▸ h.tidy k
    refine (send_ends hw htidy i message).mono fun r u' hd => ⟨hd, ?_⟩
    refine ((hd.advances hw).evolves i).includes ?_
    rw [store_of_keeps hu]
    exact hv
  exact Manager.processLeased_ends (environment_lawful roster.ids i) hsends hv

theorem Underway.processLeased {v : Negotiation} {leased : List Negotiation}
    (h : Underway roster drawn i role (v :: leased) net) :
    Ends (((roster.connector i).manager role).processLeased (environment roster.ids i)
      (send roster i) v) net fun _ net' => Underway roster drawn i role leased net' := by
  refine (h.turned hw).mono ?_
  rintro r net' ⟨u, hu, hr⟩
  have ha := (advances_of_turned hw hu).trans (advances_of_records hr.toConfined hr.records)
  refine h.advance ha (List.subset_cons_self v _) fun hl hd => ?_
  obtain ⟨hcu, hsp⟩ := hl.toConsistent.turned hw (hl.stored v (List.mem_cons_self ..))
    (hl.roles v (List.mem_cons_self ..)) (hl.lease v (List.mem_cons_self ..)) hu
    (Nat.le_trans hr.issued hd)
  refine hl.tail (hcu.records hr.toConfined hr.records) (fun x hid hxr hx => ?_) fun id hid => ?_
  · rw [finder_of_records hr.toConfined hr.records]
    exact hsp.records x hid hxr hx
  · exact (hr.leases id hid).trans (congrArg (Table.get? · id) hsp.leases)

theorem underway_preserved (i : Fin n) (role : Role) :
    Manager.Preserved ((roster.connector i).manager role) (environment roster.ids i)
      (send roster i) (focus i) (Underway roster drawn i role) where
  drop leased others net h hsub := h.drop hsub
  quiet leased net net' h hk := h.keeps hk
  command c net h := h.applyCommand hw c
  lease state net h := by
    refine ((environment_lawful roster.ids i).lease state _ _ _ net).mono ?_
    rintro (fault | leased) net' ⟨hc, ⟨hs, hn⟩ | ⟨ns, now, hr, hl⟩⟩
    · exact h.keeps ⟨hc, hs⟩
    · cases hr
    · exact absurd rfl (hn leased)
    · obtain rfl := Except.ok.inj hr
      exact h.lease hw hc hl
  release v leased net h := by
    refine (Manager.release_ends (environment_lawful roster.ids i) v.id).mono fun r net' hr => ?_
    refine h.advance (advances_of_records hr.toConfined hr.records) (List.subset_cons_self v _)
      fun hl _ => ?_
    refine hl.tail (hl.toConsistent.records hr.toConfined hr.records) (fun x _ _ hx => ?_) hr.leases
    rw [finder_of_records hr.toConfined hr.records, hx]
  turn v leased net h := h.processLeased hw

end Rounds

/-- What users and owners of connectors do, the rounds of managers, and the passing of time. -/
inductive Acts (roster : Roster n) : Network n → Network n → Prop where
  | initiate (i : Fin n) (request : ContractRequest) (net : Network n) : Acts roster net
      ((Service.initiate (roster.connector i) (environment roster.ids i) request).after net)
  | counterOffer (i : Fin n) (id : String) (offer : Offer) (net : Network n) : Acts roster net
      ((Service.counterOffer (roster.connector i) (environment roster.ids i) id offer).after net)
  | cancel (i : Fin n) (id : String) (net : Network n) : Acts roster net
      ((Service.cancel (roster.connector i) (environment roster.ids i) id).after net)
  | decline (i : Fin n) (id reason : String) (net : Network n) : Acts roster net
      ((Service.decline (roster.connector i) (environment roster.ids i) id reason).after net)
  | round (i : Fin n) (role : Role) (net : Network n) :
      Acts roster net ((runOnce roster i role).after net)
  | register (i : Fin n) (net : Network n) :
      Acts roster net ((register (roster.connector i).address i).after net)
  | unregister (i : Fin n) (net : Network n) :
      Acts roster net ((unregister (roster.connector i).address).after net)
  | clock (now : Instant) (net : Network n) : Acts roster net { net with now }

structure Settled (roster : Roster n) (drawn : Nat) (net : Network n) : Prop where
  tidy : ∀ k, (net.site k).store.Tidy
  consistent : net.issued ≤ drawn → Consistent roster net

theorem Settled.advance (h : Settled roster drawn net) (ha : Advances net net')
    (hc : Consistent roster net → net'.issued ≤ drawn → Consistent roster net') :
    Settled roster drawn net' where
  tidy k := (ha.evolves k).tidy (h.tidy k)
  consistent hd := hc (h.consistent (Nat.le_trans ha.issued hd)) hd

theorem Settled.keeps (h : Settled roster drawn net) (hk : (focus i).Keeps net net') :
    Settled roster drawn net' :=
  h.advance (advances_of_keeps hk) fun hc _ => hc.keeps hk

theorem Settled.underway (h : Settled roster drawn net) : Underway roster drawn i role [] net :=
  ⟨h.tidy, by simp, fun hd => leased_nil (h.consistent hd)⟩

section Called

variable {moves : Negotiation → Event → Prop} {opens keeps : Negotiation → Prop}
  {r : Except Fault (Except Refusal Negotiation)} (hw : roster.Wired drawn)
  (he : (focus i).Effect roster.ids net moves opens keeps r net')
  (hm : ∀ v event, moves v event → event.IsOwn ∧ ∀ a b, event ≠ .process a b)
  (ho : ∀ w, opens w → ∃ a o, w.Starts .consumer .requesting "" a o)
include hw he hm ho

theorem advances_of_called : Advances net net' := by
  refine advances_of_confined he.confined (he.evolves hw.nonempty ?_ fun w hw => .inl (ho w hw))
  exact fun v event hv => (hm v event hv).1.admissible v

theorem Settled.called (h : Settled roster drawn net) : Settled roster drawn net' := by
  have ha : Advances net net' := advances_of_called hw he hm ho
  cases he with
  | refused hk => exact h.keeps hk
  | kept v hk => exact h.keeps hk
  | moved v w event agreementId hc hv _ hmoved =>
    refine h.advance ha fun hold _ => ?_
    exact hold.moveSilently hw hc hmoved (hm v event hv).1 (hm v event hv).2
  | opened w k hc hle hlt hid hopens hopened =>
    refine h.advance ha fun hold hd => ?_
    have hput := puts_of_opened hc hopened hlt hid
    have hfresh := hold.fresh hw hle (Nat.lt_of_lt_of_le hlt hd) hid
    obtain ⟨a, o, hstarts⟩ := ho w hopens
    refine ⟨hold.toOrderly.puts hput, ?_⟩
    rw [hput.finder]
    exact hold.accord.initiate hfresh hopened.id hstarts

end Called

theorem Settled.rebook (h : Settled roster drawn net) {addresses : Table (Fin n)} (now : Instant)
    (hbook : (∀ a k, net.addresses.get? a = some k → a = (roster.connector k).address) →
      ∀ a k, addresses.get? a = some k → a = (roster.connector k).address) :
    Settled roster drawn { net with addresses, now } := by
  refine ⟨h.tidy, fun hd => ?_⟩
  have hold := h.consistent hd
  exact ⟨⟨hold.tidy, hbook hold.book, hold.issued⟩, hold.accord⟩

theorem Settled.acts (h : Settled roster drawn net) (hw : roster.Wired drawn)
    (hx : Acts roster net net') : Settled roster drawn net' := by
  have called {α : Type} {x : Action (Network n) α}
      (hx : Ends x net fun _ t => Settled roster drawn t) : Settled roster drawn (x.after net) :=
    hx.after
  have hlaw (i : Fin n) := environment_lawful roster.ids i
  cases hx with
  | initiate i request =>
    have hi := Service.initiate_ends (s := net) (hlaw i) (roster.connector i) (hw.typed i) request
    refine called (hi.mono fun r t ht => Settled.called hw ht ?_ (fun _ hw => hw) h)
    exact fun _ _ hf => hf.elim
  | counterOffer i id offer =>
    have hi := Service.counterOffer_ends (s := net) (hlaw i) (roster.connector i) (hw.typed i) id
      offer
    refine called (hi.mono fun r t ht => Settled.called hw ht ?_ (fun _ hf => hf.elim) h)
    rintro v event ⟨-, -, offer, rfl⟩
    exact ⟨trivial, by simp⟩
  | cancel i id =>
    have hi := Service.cancel_harmless (hlaw i) (roster.connector i) id net
    exact called (hi.mono fun _ _ hk => h.keeps hk)
  | decline i id reason =>
    have hi := Service.decline_harmless (hlaw i) (roster.connector i) id reason net
    exact called (hi.mono fun _ _ hk => h.keeps hk)
  | round i role =>
    have hi := Manager.runOnce_ends (hlaw i) (underway_preserved hw i role) h.underway
    exact called (hi.mono fun _ t ht => ⟨ht.tidy, fun hd => (ht.leased hd).toConsistent⟩)
  | register i =>
    refine h.rebook net.now fun hbook a k hk => ?_
    rw [Table.get?_insert] at hk
    split at hk
    · rename_i ha
      rw [ha, Option.some.inj hk]
    · exact hbook a k hk
  | unregister i =>
    refine h.rebook net.now fun hbook a k hk => ?_
    rw [Table.get?_erase] at hk
    split at hk
    · cases hk
    · exact hbook a k hk
  | clock now => exact h.rebook now fun hbook => hbook

theorem Settled.run (h : Settled roster drawn net) (hw : roster.Wired drawn)
    (hx : ReflTransGen (Acts roster) net net') : Settled roster drawn net' := by
  induction hx with
  | refl => exact h
  | tail _ hx ih => exact ih.acts hw hx

theorem advances_preserved (hw : roster.Wired drawn) (start : Network n) (i : Fin n) (role : Role) :
    Manager.Preserved ((roster.connector i).manager role) (environment roster.ids i)
      (send roster i) (focus i) fun leased t =>
        Underway roster drawn i role leased t ∧ Advances start t where
  drop leased others t h hsub := ⟨h.1.drop hsub, h.2⟩
  quiet leased t u h hk := ⟨h.1.keeps hk, h.2.trans (advances_of_keeps hk)⟩
  command c t h := by
    have hlaw := environment_lawful roster.ids i
    refine ((h.1.applyCommand hw c).and (Manager.applyCommand_ends hlaw c)).mono ?_
    rintro r u ⟨hu, hk | ⟨v, w, agreementId, hc, -, hm⟩⟩
    · exact ⟨hu, h.2.trans (advances_of_keeps hk)⟩
    · have hwrite := advances_of_confined hc (.single (Manager.write_of_command hm))
      exact ⟨hu, h.2.trans hwrite⟩
  lease state t h := by
    have hlaw := environment_lawful roster.ids i
    refine (((underway_preserved hw i role).lease state t h.1).and
      (hlaw.lease state _ _ _ t)).mono ?_
    rintro (fault | leased) u ⟨hu, hc, ⟨hs, hn⟩ | ⟨ns, now, hr, hl⟩⟩
    · exact ⟨hu, h.2.trans (advances_of_keeps ⟨hc, hs⟩)⟩
    · cases hr
    · exact absurd rfl (hn leased)
    · exact ⟨hu, h.2.trans (advances_of_records hc (Store.leases_of_leaseNext hl).records)⟩
  release v leased t h := by
    have hrelease := Manager.release_ends (s := t) (m := (roster.connector i).manager role)
      (environment_lawful roster.ids i) v.id
    refine (((underway_preserved hw i role).release v leased t h.1).and hrelease).mono ?_
    rintro r u ⟨hu, hr⟩
    exact ⟨hu, h.2.trans (advances_of_records hr.toConfined hr.records)⟩
  turn v leased t h := by
    refine ((h.1.processLeased hw).and (h.1.turned hw)).mono ?_
    rintro r u ⟨hu, t', ht, hr⟩
    refine ⟨hu, h.2.trans ((advances_of_turned hw ht).trans ?_)⟩
    exact advances_of_records hr.toConfined hr.records

theorem Settled.advances (h : Settled roster drawn net) (hw : roster.Wired drawn)
    (hx : Acts roster net net') : Advances net net' := by
  have hlaw (i : Fin n) := environment_lawful roster.ids i
  cases hx with
  | initiate i request =>
    have hi := Service.initiate_ends (s := net) (hlaw i) (roster.connector i) (hw.typed i) request
    exact (hi.mono fun _ _ ht => advances_of_called hw ht (fun _ _ hf => hf.elim)
      fun _ hw => hw).after
  | counterOffer i id offer =>
    have hi := Service.counterOffer_ends (s := net) (hlaw i) (roster.connector i) (hw.typed i) id
      offer
    refine (hi.mono fun _ _ ht => advances_of_called hw ht ?_ fun _ hf => hf.elim).after
    rintro v event ⟨-, -, offer, rfl⟩
    exact ⟨trivial, by simp⟩
  | cancel i id =>
    have hi := Service.cancel_harmless (hlaw i) (roster.connector i) id net
    exact (hi.mono fun _ _ hk => advances_of_keeps hk).after
  | decline i id reason =>
    have hi := Service.decline_harmless (hlaw i) (roster.connector i) id reason net
    exact (hi.mono fun _ _ hk => advances_of_keeps hk).after
  | round i role =>
    have hi := Manager.runOnce_ends (hlaw i) (advances_preserved hw net i role)
      ⟨h.underway, .refl net⟩
    exact (hi.mono fun _ _ ht => ht.2).after
  | register i => exact ⟨Nat.le_refl _, fun _ => .refl⟩
  | unregister i => exact ⟨Nat.le_refl _, fun _ => .refl⟩
  | clock now => exact ⟨Nat.le_refl _, fun _ => .refl⟩

theorem Settled.runs_advance (h : Settled roster drawn net) (hw : roster.Wired drawn)
    (hx : ReflTransGen (Acts roster) net net') : Advances net net' := by
  induction hx with
  | refl => exact .refl net
  | tail hrun hx ih => exact ih.trans ((h.run hw hrun).advances hw hx)

end Network

def Roster.ofSettings {n : Nat} (settings : Vector Settings n) (draws : Nat → Identifier) :
    Roster n :=
  .drawing (.ofFn fun i =>
    .ofSettings (settings.get i) (draws (2 * i)).text (draws (2 * i + 1)).text) draws

namespace Network

variable {n : Nat} {roster : Roster n} {net net' : Network n} {i j : Fin n} {drawn : Nat}
  {settings : Vector Settings n} {draws : Nat → Identifier}

theorem connector_ofSettings (i : Fin n) : (Roster.ofSettings settings draws).connector i =
    .ofSettings (settings.get i) (draws (2 * i)).text (draws (2 * i + 1)).text := by
  simp [Roster.ofSettings, Roster.drawing, Roster.connector, Vector.get]
  rfl

theorem options_ofSettings (k : Fin n) (role : Role) :
    (((Roster.ofSettings settings draws).connector k).manager role).options =
      .ofSettings (settings.get k) := by
  rw [connector_ofSettings]
  cases role <;> rfl

theorem address_ofSettings (k : Fin n) : ((Roster.ofSettings settings draws).connector k).address =
    (settings.get k).connectorOrDefault.address := by
  rw [connector_ofSettings]
  rfl

structure Built (settings : Vector Settings n) (net : Network n) : Prop where
  store : ∀ i, Store.ofSettings (settings.get i) = .ok (net.site i).store
  addresses : net.addresses = {}
  issued : net.issued = 2 * n

theorem Built.records (h : Built settings net) (i : Fin n) : (net.site i).store.records = [] := by
  have hs := h.store i
  unfold Store.ofSettings at hs
  split at hs
  · exact congrArg Store.records (Except.ok.inj hs).symm
  · cases hs

theorem Built.settled (h : Built settings net) : Settled roster drawn net := by
  have hnone (i : Fin n) (id : String) : net.finder i id = none := by
    simp [finder, Store.find?, h.records i]
  have htidy (i : Fin n) : (net.site i).store.Tidy := Store.tidy_of_records (h.records i)
  refine ⟨htidy, fun _ => ⟨⟨htidy, ?_, ?_⟩, ⟨?_, ?_, ?_, ?_⟩, ?_, ?_⟩⟩
  · intro a k hk
    rw [h.addresses] at hk
    cases hk
  all_goals simp [hnone]

theorem wired_ofSettings
    (haddress : Function.Injective fun i => (settings.get i).connectorOrDefault.address)
    (hdistinct : ∀ k < drawn, ∀ l < drawn, (draws k).text = (draws l).text → k = l) :
    (Roster.ofSettings settings draws).Wired drawn where
  typed i := by
    rw [connector_ofSettings]
    exact Connector.create_typed ..
  callback i role := by
    rw [connector_ofSettings]
    cases role <;> rfl
  address := by
    simp only [connector_ofSettings]
    exact haddress
  fresh := hdistinct
  nonempty k := (draws k).text_ne_empty

/-- Whatever connectors do, the consumer's record and the provider's record of a negotiation refer
to each other and to nobody else, hold the same agreement, and are in states that go together. The
latter speaks of records that can still be written: after its last possible version, a record's
state count is zero, and no save of it succeeds. -/
theorem parties_agree
    (haddress : Function.Injective fun i => (settings.get i).connectorOrDefault.address)
    (hbuilt : Built settings net)
    (hrun : ReflTransGen (Acts (.ofSettings settings draws)) net net')
    (hdistinct : ∀ k < net'.issued, ∀ l < net'.issued, (draws k).text = (draws l).text → k = l)
    {c p : Negotiation} (hc : c ∈ (net'.site i).store.records)
    (hp : p ∈ (net'.site j).store.records) (hpr : p.role = some .provider)
    (href : p.correlationId = c.id) :
    c.correlationId = p.id ∧
      (∀ k, ∀ x ∈ (net'.site k).store.records,
        (x.correlationId = c.id → k = j ∧ x = p) ∧ (x.correlationId = p.id → k = i ∧ x = c)) ∧
      (c.agreement = none ∨ c.agreement = p.agreement) ∧
      (c.state = .finalized → ∃ a, c.agreement = some a ∧ p.agreement = some a) ∧
      (c.stateCount ≠ 0 → p.stateCount ≠ 0 →
        (c.state.isBroken = false → p.state.isBroken = false →
          State.Together c.state p.state ∧
            (p.state ≠ .offering → c.lastOffer? = p.lastOffer?)) ∧
        (c.state = .finalized ↔ p.state = .finalized)) := by
  have hw := wired_ofSettings haddress hdistinct
  have hsettled : Settled (.ofSettings settings draws) net'.issued net' :=
    hbuilt.settled.run hw hrun
  have h := (hsettled.consistent (Nat.le_refl _)).accord
  have found {k : Fin n} {x : Negotiation} (hx : x ∈ (net'.site k).store.records) :
      net'.finder k x.id = some x := (hsettled.tidy k).find?_of_mem hx
  have hcp := h.partners_of_requested (found hc) (found hp) hpr href
  have hlater : c.state = .finalized → ∃ a, c.agreement = some a ∧ p.agreement = some a := by
    intro hs
    obtain ⟨a, ha, -⟩ := (h.sound i c.id c (found hc)).bound (by rw [hs]; decide)
    refine ⟨a, ha, ?_⟩
    rcases hcp.agreement with hnone | hsame
    · rw [hnone] at ha
      cases ha
    · rw [← hsame, ha]
  refine ⟨hcp.answered, fun k x hx => ⟨fun hxc => ?_, fun hxp => ?_⟩, hcp.agreement, hlater, ?_⟩
  · exact h.provider_unique (found hc) hcp (found hx) hxc (found hp)
  · exact h.consumer_unique (found hp) hcp (found hx) hxp (found hc)
  · intro hcc hpc
    have hstep := hcp.inStep hcc hpc
    exact ⟨fun hcb hpb => hstep.of_states rfl rfl hcb hpb, hstep.finalized_iff⟩

def partySettings : Vector Settings 2 :=
  #v[Settings.withDefaults { connector := some { participantId := "c", address := "http://c" } },
    Settings.withDefaults { connector := some { participantId := "p", address := "http://p" } }]

def partyDraws (k : Nat) : Identifier := ⟨.replicate 16 (UInt8.ofNat k)⟩

def parties : Roster 2 := .ofSettings partySettings partyDraws

def strangers : Network 2 :=
  { sites := #v[{ store := { leaseDuration := 60000 } }, { store := { leaseDuration := 60000 } }]
    issued := 4 }

def introduced : Network 2 :=
  (register "http://c" 0).after ((register "http://p" 1).after strangers)

def offered : ContractRequest := { counterPartyAddress := "http://p", offer := some {} }

def hopeless : ContractRequest := { counterPartyAddress := "http://nowhere", offer := some {} }

def concluded : Network 2 :=
  let introduced := (register "http://c" 0).after ((register "http://p" 1).after strangers)
  let asked := (Service.initiate (parties.connector 0) (environment parties.ids 0) offered).after
    introduced
  let requested := (runOnce parties 0 .consumer).after asked
  let agreed := (runOnce parties 1 .provider).after ((runOnce parties 1 .provider).after requested)
  let verified := (runOnce parties 0 .consumer).after agreed
  (runOnce parties 1 .provider).after ((runOnce parties 1 .provider).after verified)

def backingOff : Network 2 :=
  let asked := (Service.initiate (parties.connector 0) (environment parties.ids 0) offered).after
    introduced
  let parted := (unregister "http://c").after ((runOnce parties 0 .consumer).after asked)
  (register "http://c" 0).after ((runOnce parties 1 .provider).after parted)

theorem strangers_built : Built partySettings strangers where
  store i := by
    match i with
    | 0 | 1 => rfl
  addresses := rfl
  issued := rfl

theorem concluded_of_strangers : ReflTransGen (Acts parties) strangers concluded := by
  have begun : ReflTransGen (Acts parties) strangers strangers := .refl
  have introduced := (begun.tail (.register 1 _)).tail (.register 0 _)
  have requested := (introduced.tail (.initiate 0 offered _)).tail (.round 0 .consumer _)
  have agreed := (requested.tail (.round 1 .provider _)).tail (.round 1 .provider _)
  have verified := agreed.tail (.round 0 .consumer _)
  exact (verified.tail (.round 1 .provider _)).tail (.round 1 .provider _)

theorem parties_agree_of_concluded : ∃ c ∈ (concluded.site 0).store.records,
    ∃ p ∈ (concluded.site 1).store.records, c.state = .finalized ∧ c.correlationId = p.id ∧
      p.correlationId = c.id ∧ ∃ a, c.agreement = some a ∧ p.agreement = some a := by
  obtain ⟨c, hc⟩ : ∃ c, (concluded.site 0).store.records = [c] :=
    List.length_eq_one_iff.mp (by decide +kernel)
  obtain ⟨p, hp⟩ : ∃ p, (concluded.site 1).store.records = [p] :=
    List.length_eq_one_iff.mp (by decide +kernel)
  have hstate : (concluded.site 0).store.records.map Negotiation.state = [.finalized] := by
    decide +kernel
  have hrole : (concluded.site 1).store.records.map Negotiation.role = [some .provider] := by
    decide +kernel
  have href : (concluded.site 1).store.records.map Negotiation.correlationId =
      (concluded.site 0).store.records.map Negotiation.id := by decide +kernel
  have haddress : Function.Injective fun i => (partySettings.get i).connectorOrDefault.address := by
    decide +kernel
  simp only [hc, hp, List.map_cons, List.map_nil, List.cons.injEq, and_true] at hstate hrole href
  have hcm : c ∈ (concluded.site 0).store.records := by simp [hc]
  have hpm : p ∈ (concluded.site 1).store.records := by simp [hp]
  obtain ⟨hanswered, -, -, hagreed, -⟩ := parties_agree haddress strangers_built
    concluded_of_strangers (by decide +kernel) hcm hpm hrole href
  exact ⟨c, hcm, p, hpm, hstate, hanswered, href, hagreed hstate⟩

end Network

end ContractNegotiation
