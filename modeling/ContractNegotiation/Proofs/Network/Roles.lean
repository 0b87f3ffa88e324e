import ContractNegotiation.Proofs.Connector
import ContractNegotiation.Proofs.Journal
import ContractNegotiation.Proofs.Manager.Alike
import ContractNegotiation.Proofs.Store.Roles

namespace ContractNegotiation

open ContractNegotiation.Action Relation

namespace Manager

inductive Order where
  | initiate (request : ContractRequest)
  | offered (correlationId : String) (offer : Offer)
  | agreed (correlationId : String) (agreement : Agreement) (policy : Policy)
  | finalized (correlationId : String)
  | requested (token : ClaimToken) (message : RequestMessage)
  | counterOffer (id : String) (offer : Offer)
  | verified (correlationId : String)
  | terminated (correlationId reason : String)
  | enqueue (c : Command)
  | round

inductive Reply where
  | record (r : Except Refusal Negotiation)
  | queued
  | handled (count : Nat)

namespace Order

def perform {σ : Type} (m : Manager) (env : Environment σ) (send : Transport σ) :
    Order → Action σ Reply
  | initiate request => .record <$> m.initiate env request
  | offered c offer => .record <$> m.offered env c offer
  | agreed c agreement policy => .record <$> m.agreed env c agreement policy
  | finalized c => .record <$> m.finalized env c
  | requested token message => .record <$> m.requested env token message
  | counterOffer id offer => .record <$> m.counterOffer env id offer
  | verified c => .record <$> m.verified env c
  | terminated c reason => .record <$> m.terminated env c reason
  | enqueue c => (fun _ => .queued) <$> m.enqueue env c
  | round => .handled <$> m.runOnce env send

def correlationId? : Order → Option String
  | offered c _ | agreed c _ _ | finalized c | verified c | terminated c _ => some c
  | requested _ message => some message.processId
  | initiate _ | counterOffer .. | enqueue _ | round => none

variable {σ τ : Type} {m : Manager} {Own Drawn Asked : String → Prop} {unlogged : Prop}
  {R : σ → τ → Prop} {env : Environment σ} {env' : Environment τ} {send : Transport σ}
  {send' : Transport τ}

theorem perform_alike (h : env.Alike m Own Drawn Asked unlogged R env')
    (hsend : ∀ message, Alike R Eq (send message) (send' message)) (o : Order)
    (ho : ∀ c, o.correlationId? = some c → Asked c) :
    Alike R Eq (o.perform m env send) (o.perform m env' send') := by
  cases o with
  | initiate request => exact (initiate_alike h request).map _
  | offered c offer => exact (applyCorrelated_alike h _ (ho c rfl)).map _
  | agreed c agreement policy => exact (agreed_alike h agreement policy (ho c rfl)).map _
  | finalized c => exact (applyCorrelated_alike h _ (ho c rfl)).map _
  | requested token message => exact (requested_alike h token message (ho _ rfl)).map _
  | counterOffer id offer => exact (counterOffer_alike h id offer).map _
  | verified c => exact (applyCorrelated_alike h _ (ho c rfl)).map _
  | terminated c reason => exact (applyCorrelated_alike h _ (ho c rfl)).map _
  | enqueue c => exact (enqueue_alike h c).map _
  | round => exact (runOnce_alike h hsend).map _

end Order

end Manager

theorem Site.workload_setWorkload_ne {site : Site} {role other : Role} {w : Workload}
    (h : other ≠ role) : (site.setWorkload role w).workload other = site.workload other := by
  cases role <;> cases other <;> first | rfl | exact absurd rfl h

namespace Network

variable {n : Nat} {i : Fin n} {ids ids' : Nat → String} {m : Manager}
  {send send' : Transport (Network n)} {net net' s t s' t' : Network n}

/-- A way to send that does not reach back into the connector. -/
def NoCallback (i : Fin n) (send : Transport (Network n)) : Prop :=
  ∀ message net, Ends (send message) net fun _ net' =>
    net'.site i = net.site i ∧ net.issued ≤ net'.issued

structure Spared (i : Fin n) (role : Role) (Kept : String → Prop) (net net' : Network n) :
    Prop where
  store : (net.site i).store.Untouched role Kept (net'.site i).store
  workload : ∀ other, other ≠ role → (net'.site i).workload other = (net.site i).workload other
  issued : net.issued ≤ net'.issued

section Spared

variable {role : Role} {Kept : String → Prop}

theorem Spared.setStore (h : Spared i role Kept net s) {store : Store}
    (hstore : (net.site i).store.Untouched role Kept store) :
    Spared i role Kept net (s.setStore i store) := by
  have hsite := site_setStore s i store
  refine ⟨by rwa [hsite], fun other ho => ?_, h.issued⟩
  rw [hsite, Site.workload_store, h.workload other ho]

theorem Spared.setWorkload (h : Spared i role Kept net s) (w : Workload) :
    Spared i role Kept net (s.setSite i ((s.site i).setWorkload role w)) := by
  have hsite : (s.setSite i ((s.site i).setWorkload role w)).site i =
      (s.site i).setWorkload role w := by rw [site_setSite, if_pos rfl]
  refine ⟨?_, fun other ho => ?_, h.issued⟩
  · rw [hsite, Site.store_setWorkload]
    exact h.store
  · rw [hsite, Site.workload_setWorkload_ne ho, h.workload other ho]

theorem Spared.of_site (h : Spared i role Kept net s) (hsite : s'.site i = s.site i)
    (hissued : s.issued ≤ s'.issued) : Spared i role Kept net s' := by
  refine ⟨hsite ▸ h.store, fun other ho => ?_, Nat.le_trans h.issued hissued⟩
  rw [hsite]
  exact h.workload other ho

end Spared

def watching (i : Fin n) (seen : Network n × List Store) (net : Network n) :
    Network n × List Store := (net, seen.2 ++ [(net.site i).store])

def watched (i : Fin n) {α : Type} (x : Action (Network n) α) :
    Action (Network n × List Store) α := .within Prod.fst (watching i) x

def watchedEnvironment (ids : Nat → String) (i : Fin n) : Environment (Network n × List Store) :=
  (environment ids i).within Prod.fst (watching i)

structure Seen (i : Fin n) (role : Role) (Kept : String → Prop) (net : Network n)
    (seen : Network n × List Store) (s : Network n) : Prop where
  network : seen.1 = s
  spared : Spared i role Kept net s
  stores : ∀ store ∈ seen.2, (net.site i).store.Untouched role Kept store

section Watched

variable {α : Type} {role : Role} {Kept : String → Prop}

theorem watched_alike {P : α → Prop} (x : Action (Network n) α)
    (hx : ∀ s, Spared i role Kept net s →
      Ends x s fun r t => Spared i role Kept net t ∧ ∀ a, r = .ok a → P a) :
    Alike (Seen i role Kept net) (fun a b => a = b ∧ P a) (watched i x) x := by
  rintro ⟨s, stores⟩ _ ⟨rfl, hs, hstores⟩
  have h := hx s hs
  have hmore (t : Network n) (ht : Spared i role Kept net t) :
      ∀ store ∈ stores ++ [(t.site i).store],
        (net.site i).store.Untouched role Kept store := by
    intro store hstore
    rcases List.mem_append.mp hstore with hstore | hstore
    · exact hstores store hstore
    · exact List.mem_singleton.mp hstore ▸ ht.store
  unfold Ends at h
  simp only [watched, Action.within]
  cases hxs : x s with
  | ok a t =>
    rw [hxs] at h
    exact ⟨⟨rfl, h.2 a rfl⟩, rfl, h.1, hmore t h.1⟩
  | error fault t =>
    rw [hxs] at h
    exact ⟨rfl, rfl, h.1, hmore t h.1⟩

theorem watched_alike_of_ends (x : Action (Network n) α)
    (hx : ∀ s, Spared i role Kept net s → Ends x s fun _ t => Spared i role Kept net t) :
    Alike (Seen i role Kept net) Eq (watched i x) x := by
  have hany (s : Network n) (hs : Spared i role Kept net s) :
      Ends x s fun r t => Spared i role Kept net t ∧ ∀ a, r = .ok a → True :=
    (hx s hs).mono fun _ _ ht => ⟨ht, fun _ _ => trivial⟩
  exact (watched_alike x hany).mono fun _ _ h => h.1

end Watched

section Frame

def Kept (i : Fin n) (role : Role) (mine : String → Prop) (net : Network n) (id : String) : Prop :=
  mine id ∨ ∃ v ∈ (net.site i).store.besides role, v.id = id

variable {mine : String → Prop}

theorem kept_of_besides {role : Role} {v : Negotiation}
    (hv : v ∈ (net.site i).store.besides role) : Kept i role mine net v.id := .inr ⟨v, hv, rfl⟩

theorem own_not_kept (h : Spared i m.role (Kept i m.role mine net) net s)
    {found : Option Negotiation} (hfound : ∀ v, found = some v → v ∈ (s.site i).store.records) :
    ∀ v, m.own found = some v → ¬ Kept i m.role mine net v.id := by
  intro v hv
  obtain ⟨hv, hr⟩ := m.own_eq_some.mp hv
  exact h.store.ofRole v (Store.mem_ofRole.mpr ⟨hfound v hv, hr⟩)

theorem watched_save_alike {record : Negotiation} {holder : String} (hr : record.role = m.role)
    (hfree : ∀ s saved store, Spared i m.role (Kept i m.role mine net) net s →
      Store.Saved (s.site i).store record saved store → ¬ Kept i m.role mine net record.id) :
    Alike (Seen i m.role (Kept i m.role mine net) net) Eq
      (watched i (save i record holder)) (save i record holder) := by
  apply watched_alike_of_ends
  intro s hs
  simp only [Ends, save_apply]
  cases hsave : (s.site i).store.save record holder s.now with
  | error e => exact hs
  | ok saved =>
    have hsaved := Store.saved_of_save hsave
    have hkept := hfree s _ _ hs hsaved
    exact hs.setStore (hs.store.saved (fun _ => kept_of_besides) hsaved hr hkept)

theorem watchedEnvironment_alike (hdrawn : ∀ k, net.issued ≤ k → ¬ mine (ids k)) :
    (watchedEnvironment ids i).Alike m (fun id => ¬ Kept i m.role mine net id)
      (fun id => ¬ mine id) (fun _ => True) False (Seen i m.role (Kept i m.role mine net) net)
      (environment ids i) where
  now := watched_alike_of_ends (environment ids i).now fun s hs => hs
  freshId := by
    apply watched_alike (freshId ids)
    intro s hs
    exact ⟨hs.of_site rfl (Nat.le_succ _), fun a ha => Except.ok.inj ha ▸ hdrawn _ hs.issued⟩
  report notice := watched_alike_of_ends (report notice) fun s hs => hs.of_site rfl (Nat.le_refl _)
  report_any h := h.elim
  find id := by
    apply (watched_alike (P := fun found =>
        ∀ v, m.own found = some v → ¬ Kept i m.role mine net v.id)
      ((environment ids i).find id) ?_).mono
    · rintro found _ ⟨rfl, hown⟩
      exact ⟨rfl, hown, .inl rfl⟩
    · intro s hs
      refine ⟨hs, fun found hfound => own_not_kept hs fun v hv => ?_⟩
      exact Store.mem_of_find? ((Except.ok.inj hfound).trans hv)
  findByCorrelation c _ := by
    apply (watched_alike (P := fun found =>
        ∀ v, m.own found = some v → ¬ Kept i m.role mine net v.id)
      ((environment ids i).findByCorrelation c) ?_).mono
    · rintro found _ ⟨rfl, hown⟩
      exact ⟨rfl, hown⟩
    · intro s hs
      refine ⟨hs, fun found hfound => own_not_kept hs fun v hv => ?_⟩
      exact (Store.correlationId_of_findByCorrelation? ((Except.ok.inj hfound).trans hv)).1
  save_first record hid hr hc := watched_save_alike hr fun s _ _ hs hsaved =>
    hs.store.not_kept hsaved hc fun hk => hk.resolve_left hid
  save record holder hid hr := watched_save_alike hr fun _ _ _ _ _ => hid
  lease state := by
    apply watched_alike (lease i state m.role m.options.batchSize m.leaseHolder)
    intro s hs
    obtain ⟨hstore, hns⟩ := hs.store.leased rfl
    refine ⟨hs.setStore hstore, fun ns h => ?_⟩
    exact Except.ok.inj h ▸ hns
  breakLease id hid := by
    apply watched_alike_of_ends (breakLease i id m.leaseHolder)
    intro s hs
    simp only [Ends, breakLease_apply]
    cases hbreak : (s.site i).store.breakLease id m.leaseHolder s.now with
    | error e => exact hs
    | ok store => exact hs.setStore (hs.store.broken hbreak hid)
  workload := watched_alike_of_ends ((environment ids i).workload m.role) fun s hs => hs
  setWorkload w := watched_alike_of_ends ((environment ids i).setWorkload m.role w)
    fun s hs => hs.setWorkload w

theorem seen_perform (o : Manager.Order) (ha : NoCallback i send) (htidy : (net.site i).store.Tidy)
    (hdrawn : ∀ k, net.issued ≤ k → ¬ mine (ids k))
    (hmine : ∀ v ∈ (net.site i).store.ofRole m.role, ¬ mine v.id) :
    Seen i m.role (Kept i m.role mine net) net
      ((o.perform m (watchedEnvironment ids i) fun message => watched i (send message)).after
        (net, []))
      ((o.perform m (environment ids i) send).after net) := by
  have hsend (message : RemoteMessage) : Alike (Seen i m.role (Kept i m.role mine net) net) Eq
      (watched i (send message)) (send message) := by
    apply watched_alike_of_ends
    intro s hs
    exact (ha message s).mono fun _ t ht => hs.of_site ht.1 ht.2
  apply (o.perform_alike (watchedEnvironment_alike hdrawn) hsend fun _ _ => trivial).after
  refine ⟨rfl, ⟨⟨htidy, rfl, fun _ _ => rfl, rfl, fun v hv => ?_⟩, fun _ _ => rfl, Nat.le_refl _⟩,
    fun _ h => by cases h⟩
  rintro (h | h)
  · exact hmine v hv h
  · exact htidy.not_besides hv h

theorem seen_of_tidy (m : Manager) (ids : Nat → String) (o : Manager.Order) (ha : NoCallback i send)
    (htidy : (net.site i).store.Tidy) :
    Seen i m.role (Kept i m.role (fun _ => False) net) net
      ((o.perform m (watchedEnvironment ids i) fun message => watched i (send message)).after
        (net, []))
      ((o.perform m (environment ids i) send).after net) :=
  seen_perform o ha htidy (fun _ _ h => h) fun _ _ h => h

end Frame

structure SameWorld (i : Fin n)
    (like : (Fin n → Option Site) × Table (Fin n) × Instant →
      (Fin n → Option Site) × Table (Fin n) × Instant → Prop)
    (ids ids' : Nat → String) (s t : Network n) : Prop where
  outside : like ((focus i).outside s) ((focus i).outside t)
  now : s.now = t.now
  draws : ∀ k, ids (s.issued + k) = ids' (t.issued + k)

structure SameForRole (i : Fin n) (role : Role) (mine : String → Prop)
    (like : (Fin n → Option Site) × Table (Fin n) × Instant →
      (Fin n → Option Site) × Table (Fin n) × Instant → Prop)
    (ids ids' : Nat → String) (s t : Network n) : Prop extends SameWorld i like ids ids' s t where
  store : (s.site i).store.Twin role mine (t.site i).store
  workload : (s.site i).workload role = (t.site i).workload role
  mine : ∀ k, s.issued ≤ k → mine (ids k)

section SameForRole

variable {role : Role} {mine : String → Prop}
  {like : (Fin n → Option Site) × Table (Fin n) × Instant →
    (Fin n → Option Site) × Table (Fin n) × Instant → Prop}

theorem SameForRole.setSite (h : SameForRole i role mine like ids ids' s t) {site site' : Site}
    (hstore : site.store.Twin role mine site'.store)
    (hworkload : site.workload role = site'.workload role) :
    SameForRole i role mine like ids ids' (s.setSite i site) (t.setSite i site') := by
  refine ⟨⟨?_, h.now, h.draws⟩, ?_, ?_, h.mine⟩
  · rw [(confined_setSite s i site).outside, (confined_setSite t i site').outside]
    exact h.outside
  · rwa [site_setSite, if_pos rfl, site_setSite, if_pos rfl]
  · rwa [site_setSite, if_pos rfl, site_setSite, if_pos rfl]

theorem SameForRole.setStore (h : SameForRole i role mine like ids ids' s t) {store store' : Store}
    (hstore : store.Twin role mine store') :
    SameForRole i role mine like ids ids' (s.setStore i store) (t.setStore i store') := by
  apply h.setSite hstore
  rw [Site.workload_store, h.workload]
  exact (Site.workload_store ..).symm

theorem SameForRole.own (h : SameForRole i m.role mine like ids ids' s t)
    {found : Option Negotiation}
    (hfound : ∀ v, found = some v → v ∈ (s.site i).store.records) :
    ∀ v, m.own found = some v → mine v.id := by
  intro v hv
  obtain ⟨hv, hr⟩ := m.own_eq_some.mp hv
  exact h.store.ofRole v (Store.mem_ofRole.mpr ⟨hfound v hv, hr⟩)

theorem save_alike (record : Negotiation) (holder : String) (hid : mine record.id)
    (hr : record.role = some role) : Alike (SameForRole i role mine like ids ids') Eq
      (save i record holder) (save i record holder) := by
  intro s t h
  rw [save_apply, save_apply, h.now]
  rcases h.store.save hr hid with ⟨e, hs, ht⟩ | ⟨w, store, store', hs, ht, hstore⟩
  · rw [hs, ht]
    exact ⟨rfl, h⟩
  · rw [hs, ht]
    exact ⟨rfl, h.setStore hstore⟩

theorem environment_alike (ids ids' : Nat → String) (i : Fin n) :
    (environment ids i).Alike m mine mine mine True (SameForRole i m.role mine like ids ids')
      (environment ids' i) where
  now s t h := ⟨h.now, h⟩
  freshId s t h := by
    refine ⟨⟨h.draws 0, h.mine _ (Nat.le_refl _)⟩, ⟨h.outside, h.now, fun k => ?_⟩, h.store,
      h.workload, fun k hk => h.mine k (Nat.le_of_succ_le hk)⟩
    have hdraw := h.draws (k + 1)
    rwa [← Nat.add_assoc, ← Nat.add_assoc, Nat.add_right_comm, Nat.add_right_comm t.issued]
      at hdraw
  report notice s t h := ⟨rfl, ⟨h.outside, h.now, h.draws⟩, h.store, h.workload, h.mine⟩
  report_any _ notice notice' s t h :=
    ⟨rfl, ⟨h.outside, h.now, h.draws⟩, h.store, h.workload, h.mine⟩
  find id s t h := by
    refine ⟨⟨?_, h.own fun _ => Store.mem_of_find?, .inr trivial⟩, h⟩
    by_cases hid : mine id
    · obtain ⟨hs, ht⟩ := h.store.find?_of_mine hid
      exact congrArg m.own (hs.trans ht.symm)
    · obtain ⟨hs, ht⟩ := h.store.find?_of_not_mine hid
      exact hs.trans ht.symm
  findByCorrelation c hc s t h := by
    obtain ⟨hsame, hrole⟩ := h.store.findByCorrelation? hc
    exact ⟨⟨congrArg m.own hsame,
      h.own fun v hv => (Store.mem_ofRole.mp (hrole v hv)).1⟩, h⟩
  save_first record hid hr _ := save_alike record "" hid hr
  save record holder hid hr := save_alike record holder hid hr
  lease state s t h := by
    obtain ⟨ns, store, hs⟩ : ∃ ns store, (s.site i).store.leaseNext state.code (some m.role)
      m.options.batchSize m.leaseHolder s.now = (ns, store) := ⟨_, _, rfl⟩
    obtain ⟨ns', store', ht⟩ : ∃ ns store, (t.site i).store.leaseNext state.code (some m.role)
      m.options.batchSize m.leaseHolder s.now = (ns, store) := ⟨_, _, rfl⟩
    obtain ⟨rfl, hstore⟩ := h.store.leased hs ht
    have hleases := Store.leases_of_leaseNext hs
    have hs' : (environment ids i).lease state m.role m.options.batchSize m.leaseHolder s =
        .ok ns (s.setStore i store) := lease_apply hs
    have ht' : (environment ids' i).lease state m.role m.options.batchSize m.leaseHolder t =
        .ok ns (t.setStore i store') := lease_apply (h.now ▸ ht)
    rw [hs', ht']
    refine ⟨⟨rfl, fun v hv => ?_⟩, h.setStore hstore⟩
    have hr := hleases.role v hv
    exact ⟨h.store.ofRole v (Store.mem_ofRole.mpr ⟨hleases.stored v hv, hr⟩), hr⟩
  breakLease id hid s t h := by
    have hs : (environment ids i).breakLease id m.leaseHolder s = _ := breakLease_apply ..
    have ht : (environment ids' i).breakLease id m.leaseHolder t = _ := breakLease_apply ..
    rw [hs, ht, h.now]
    rcases h.store.breakLease hid with ⟨e, hs, ht⟩ | ⟨store, store', hs, ht, hstore⟩
    · rw [hs, ht]
      exact ⟨rfl, h⟩
    · rw [hs, ht]
      exact ⟨rfl, h.setStore hstore⟩
  workload s t h := ⟨h.workload, h⟩
  setWorkload w s t h := by
    refine ⟨rfl, h.setSite ?_ ?_⟩
    · rw [Site.store_setWorkload, Site.store_setWorkload]
      exact h.store
    · rw [Site.workload_setWorkload, Site.workload_setWorkload]

theorem sameForRole_perform (o : Manager.Order)
    (ho : ∀ c, o.correlationId? = some c → mine c) (ha : NoCallback i send)
    (ha' : NoCallback i send')
    (hsend : ∀ message, Alike (SameWorld i like ids ids') Eq (send message) (send' message)) :
    Alike (SameForRole i m.role mine like ids ids') Eq (o.perform m (environment ids i) send)
      (o.perform m (environment ids' i) send') := by
  apply o.perform_alike (environment_alike ids ids' i) _ ho
  intro message s t h
  have hs := ha message s
  have ht := ha' message t
  have hst := hsend message s t h.toSameWorld
  have away (s' t' : Network n) (hs : s'.site i = s.site i ∧ s.issued ≤ s'.issued)
      (ht : t'.site i = t.site i ∧ t.issued ≤ t'.issued) (ho : SameWorld i like ids ids' s' t') :
      SameForRole i m.role mine like ids ids' s' t' := by
    refine ⟨ho, ?_, ?_, fun k hk => h.mine k (Nat.le_trans hs.2 hk)⟩
    · rw [hs.1, ht.1]
      exact h.store
    · rw [hs.1, ht.1, h.workload]
  unfold Ends at hs ht
  cases hsx : send message s <;> cases htx : send' message t <;>
    simp only [hsx, htx] at hs ht hst ⊢
  · exact ⟨hst.1, away _ _ hs ht hst.2⟩
  · exact ⟨hst.1, away _ _ hs ht hst.2⟩

end SameForRole

inductive Shares (c : Connector) (i : Fin n) : Network n → Network n → Prop where
  | perform (role : Role) (ids : Nat → String) (send : Transport (Network n)) (o : Manager.Order)
      (net : Network n) : NoCallback i send →
      Shares c i net ((o.perform (c.manager role) (environment ids i) send).after net)
  | elsewhere {net net' : Network n} : net'.site i = net.site i → Shares c i net net'

/-- What may happen in one of two runs of a manager and not in the other: the ids that are `mine`
are left to the manager's records. -/
inductive Unrelated (c : Connector) (i : Fin n) (role : Role) (mine : String → Prop) :
    Network n → Network n → Prop where
  | perform (other : Role) (ids : Nat → String) (send : Transport (Network n)) (o : Manager.Order)
      (net : Network n) : other ≠ role → NoCallback i send →
      (∀ k, net.issued ≤ k → ¬ mine (ids k)) →
      (∀ v ∈ (((o.perform (c.manager other) (environment ids i) send).after net).site
        i).store.besides role, v.Apart mine) →
      Unrelated c i role mine net ((o.perform (c.manager other) (environment ids i) send).after net)
  | elsewhere {net net' : Network n} : net'.site i = net.site i → Unrelated c i role mine net net'

/-- Two runs of the manager of a role, each with its answers. Both do the same orders, draw the same
ids in the same order, and see the same of the world. -/
inductive Twins (c : Connector) (i : Fin n) (role : Role) (mine : String → Prop) :
    List (Except Fault Manager.Reply) → List (Except Fault Manager.Reply) →
      Network n → Network n → Prop where
  | start {s t : Network n} : (s.site i).store.Twin role mine (t.site i).store →
      (s.site i).workload role = (t.site i).workload role → Twins c i role mine [] [] s t
  | unrelated {answers answers' : List (Except Fault Manager.Reply)} {s t s' t' : Network n} :
      Twins c i role mine answers answers' s t → Unrelated c i role mine s s' →
      Unrelated c i role mine t t' → Twins c i role mine answers answers' s' t'
  | perform {answers answers' : List (Except Fault Manager.Reply)} {s t : Network n}
      (o : Manager.Order) (ids ids' : Nat → String) (send send' : Transport (Network n))
      (like : (Fin n → Option Site) × Table (Fin n) × Instant →
        (Fin n → Option Site) × Table (Fin n) × Instant → Prop) :
      Twins c i role mine answers answers' s t → (∀ id, o.correlationId? = some id → mine id) →
      NoCallback i send → NoCallback i send' →
      (∀ message, Alike (SameWorld i like ids ids') Eq (send message) (send' message)) →
      SameWorld i like ids ids' s t → (∀ k, s.issued ≤ k → mine (ids k)) →
      Twins c i role mine
        (answers ++ [(o.perform (c.manager role) (environment ids i) send).outcome s])
        (answers' ++ [(o.perform (c.manager role) (environment ids' i) send').outcome t])
        ((o.perform (c.manager role) (environment ids i) send).after s)
        ((o.perform (c.manager role) (environment ids' i) send').after t)

section Roles

variable {c : Connector} {role : Role} {mine : String → Prop}
  {answers answers' : List (Except Fault Manager.Reply)} (hc : c.Typed)
include hc

omit hc in
theorem Shares.tidy (h : Shares c i net net') (htidy : (net.site i).store.Tidy) :
    (net'.site i).store.Tidy := by
  cases h with
  | perform role ids send o _ ha =>
    have hseen := seen_of_tidy (c.manager role) ids o ha htidy
    exact hseen.spared.store.tidy
  | elsewhere h =>
    rw [h]
    exact htidy

theorem Unrelated.twin (h : Unrelated c i role mine s s')
    (hst : (s.site i).store.Twin role mine (t.site i).store) :
    (s'.site i).store.Twin role mine (t.site i).store ∧
      (s'.site i).workload role = (s.site i).workload role := by
  cases h with
  | perform other ids send o _ ho ha hdraws hapart =>
    have hr : (c.manager other).role = other := hc.manager other
    have hown : ∀ v ∈ (s.site i).store.ofRole (c.manager other).role, ¬ mine v.id := by
      intro v hv
      obtain ⟨hv, hother⟩ := Store.mem_ofRole.mp hv
      apply (hst.besides.1 v (Store.mem_besides.mpr ⟨hv, ?_⟩)).id
      rw [hother, hr]
      exact fun h => ho (Option.some.inj h)
    have hseen := seen_perform o ha hst.tidy.1 hdraws hown
    rw [hr] at hseen
    exact ⟨hst.untouched ho hseen.spared.store (fun _ => .inl) hapart,
      hseen.spared.workload role ho.symm⟩
  | elsewhere h =>
    rw [h]
    exact ⟨hst, rfl⟩

theorem Twins.twin (h : Twins c i role mine answers answers' s t) :
    answers = answers' ∧ (s.site i).store.Twin role mine (t.site i).store ∧
      (s.site i).workload role = (t.site i).workload role := by
  induction h with
  | start hstore hworkload => exact ⟨rfl, hstore, hworkload⟩
  | unrelated _ hs ht ih =>
    obtain ⟨hanswers, hstore, hworkload⟩ := ih
    obtain ⟨hstore, hs⟩ := hs.twin hc hstore
    obtain ⟨hstore, ht⟩ := ht.twin hc hstore.symm
    exact ⟨hanswers, hstore.symm, by rw [hs, ht, hworkload]⟩
  | perform o ids ids' send send' like _ ho ha ha' hsend hworld hmine ih =>
    obtain ⟨rfl, hstore, hworkload⟩ := ih
    have hr : (c.manager role).role = role := hc.manager role
    rw [← hr] at hstore hworkload
    have halike := sameForRole_perform (m := c.manager role) o ho ha ha' hsend
    have hsame := halike.after ⟨hworld, hstore, hworkload, hmine⟩
    rw [halike.outcome ⟨hworld, hstore, hworkload, hmine⟩]
    rw [hr] at hsame
    exact ⟨rfl, hsame.store, hsame.workload⟩

/-- Two managers share a store from any tidy one on, each with a way to send that does not reach
back into it. Whatever either is asked to do, at no moment is a record that is not of its role
inserted, changed, leased or released. And two runs of one of them, in stores that differ in other
records only, give the same answers and leave the same records of its role, whatever the other
manager does in either of them, as long as none of its records gets an id or a correlation id that
is `mine`. -/
theorem roles_separate (i : Fin n) :
    (∀ {start net : Network n}, (start.site i).store.Tidy →
      ReflTransGen (Shares c i) start net → ∀ (role : Role) (ids : Nat → String)
        (send : Transport (Network n)) (o : Manager.Order), NoCallback i send →
        ∃ net' stores,
          ((o.perform (c.manager role) (watchedEnvironment ids i) fun message =>
            watched i (send message)).after (net, [])) = (net', stores) ∧
          (o.perform (c.manager role) (environment ids i) send).after net = net' ∧
          ∀ store ∈ stores ++ [(net'.site i).store], (net.site i).store.Spares role store) ∧
    ∀ {role : Role} {mine : String → Prop} {answers answers' : List (Except Fault Manager.Reply)}
      {s t : Network n}, Twins c i role mine answers answers' s t →
      answers = answers' ∧ (s.site i).store.ofRole role = (t.site i).store.ofRole role := by
  constructor
  · intro start net htidy hrun role ids send o ha
    have htidy : (net.site i).store.Tidy := by
      induction hrun with
      | refl => exact htidy
      | tail _ h ih => exact h.tidy ih
    have hseen := seen_of_tidy (c.manager role) ids o ha htidy
    rw [hc.manager role] at hseen
    refine ⟨_, _, Prod.ext hseen.network rfl, rfl, fun store hstore => ?_⟩
    rcases List.mem_append.mp hstore with hstore | hstore
    · exact (hseen.stores store hstore).spares fun _ => kept_of_besides
    · rw [List.mem_singleton.mp hstore]
      exact hseen.spared.store.spares fun _ => kept_of_besides
  · intro role mine answers answers' s t h
    obtain ⟨hanswers, hstore, -⟩ := h.twin hc
    exact ⟨hanswers, hstore.records⟩

end Roles

section Meddling

variable (i : Fin n)

def accepting : Transport (Network n) := fun _ => pure (.ok "peer")

theorem noCallback_accepting : NoCallback i accepting := fun _ _ => ⟨rfl, Nat.le_refl _⟩

def inquiry : RequestMessage :=
  { processId := "q", connectorId := "d", callbackAddress := "http://d", offer := some {} }

def inquired (net : Network n) : Network n :=
  ((Manager.Order.requested ⟨[]⟩ inquiry).perform (loneConnector.manager .provider)
    (environment (fun _ => "p") i) accepting).after net

def ordered (o : Manager.Order) (net : Network n) : Network n :=
  (o.perform (loneConnector.manager .consumer) (environment (fun _ => "c") i) accepting).after net

def meddling (net : Network n) : Network n :=
  ordered i (.enqueue (.decline "p" "no"))
    (ordered i (.initiate { counterPartyAddress := "http://p", offer := some {} }) net)

end Meddling

theorem roles_separate_of_meddling : loneConnector.Typed ∧
    ReflTransGen (Shares loneConnector 0) vacant (meddling 0 (inquired 0 vacant)) ∧
    ((meddling 0 (inquired 0 vacant)).site 0).store.besides .consumer ≠ [] ∧
    (∃ stores, stores ≠ [] ∧ ∀ store ∈ stores,
      ((meddling 0 (inquired 0 vacant)).site 0).store.Spares .consumer store) ∧
    ∃ answers answers', answers.length = 3 ∧
      Twins loneConnector 0 .consumer (fun id => id = "c" ∨ id = "peer") answers answers'
        (ordered 0 .round (meddling 0 (inquired 0 vacant)))
        (ordered 0 .round (meddling 0 vacant)) ∧ answers = answers' ∧
      ((ordered 0 .round (meddling 0 (inquired 0 vacant))).site 0).store.records.length = 2 ∧
      ((ordered 0 .round (meddling 0 vacant)).site 0).store.records.length = 1 ∧
      ((ordered 0 .round (meddling 0 (inquired 0 vacant))).site 0).store.ofRole .consumer =
        ((ordered 0 .round (meddling 0 vacant)).site 0).store.ofRole .consumer := by
  have hc : loneConnector.Typed := ⟨rfl, rfl⟩
  obtain ⟨hspared, htwins⟩ := roles_separate hc (0 : Fin 1)
  have hinquiry : Shares loneConnector 0 vacant (inquired 0 vacant) :=
    .perform .provider (fun _ => "p") _ _ _ (noCallback_accepting 0)
  have horder (o : Manager.Order) (net : Network 1) :
      Shares loneConnector 0 net (ordered 0 o net) :=
    .perform .consumer (fun _ => "c") _ _ _ (noCallback_accepting 0)
  have hrun : ReflTransGen (Shares loneConnector 0) vacant (meddling 0 (inquired 0 vacant)) :=
    ((ReflTransGen.single hinquiry).tail (horder _ _)).tail (horder _ _)
  have htidy : (vacant.site 0).store.Tidy := Store.tidy_of_records records_vacant
  obtain ⟨net', stores, -, -, hstores⟩ := hspared htidy hrun .consumer (fun _ => "c") accepting
    .round (noCallback_accepting 0)
  have hstart : Twins loneConnector 0 .consumer (fun id => id = "c" ∨ id = "peer") [] []
      vacant vacant := by
    refine .start ⟨⟨htidy, htidy⟩, rfl, fun _ _ => rfl, rfl, ?_, ?_, ?_⟩ rfl
    all_goals simp [Store.ofRole, Store.besides, records_vacant]
  have hinquired : Twins loneConnector 0 .consumer (fun id => id = "c" ∨ id = "peer") [] []
      (inquired 0 vacant) vacant := by
    refine hstart.unrelated (.perform .provider (fun _ => "p") _ _ _ (by decide)
      (noCallback_accepting 0) ?_ ?_) (.elsewhere rfl)
    · exact fun _ _ => by decide
    · have hids : (((inquired 0 vacant).site 0).store.besides .consumer).map
          (fun v => (v.id, v.correlationId)) = [("p", "q")] := by decide +kernel
      intro v hv
      have hmem : (v.id, v.correlationId) ∈ [("p", "q")] := hids ▸ List.mem_map_of_mem hv
      obtain ⟨hid, hcorrelation⟩ := Prod.mk.inj (List.mem_singleton.mp hmem)
      exact ⟨by rw [hid]; decide, fun _ => by rw [hcorrelation]; decide⟩
  have next {answers answers' : List (Except Fault Manager.Reply)} {s t : Network 1}
      (o : Manager.Order) (ho : o.correlationId? = none) (hnow : s.now = t.now)
      (h : Twins loneConnector 0 .consumer (fun id => id = "c" ∨ id = "peer") answers answers'
        s t) :=
    h.perform o (fun _ => "c") (fun _ => "c") accepting accepting (fun _ _ => True)
      (fun id hid => by rw [ho] at hid; cases hid) (noCallback_accepting 0) (noCallback_accepting 0)
      (fun _ => alike_pure rfl) ⟨trivial, hnow, fun _ => rfl⟩ fun _ _ => .inl rfl
  have hasked := next (.initiate { counterPartyAddress := "http://p", offer := some {} }) rfl
    (by decide +kernel) hinquired
  have htold := next (.enqueue (.decline "p" "no")) rfl (by decide +kernel) hasked
  have hall := next .round rfl (by decide +kernel) htold
  obtain ⟨hanswers, hrecords⟩ := htwins hall
  exact ⟨hc, hrun, by decide +kernel, ⟨_, by simp, hstores⟩, _, _, rfl, hall, hanswers,
    by decide +kernel, by decide +kernel, hrecords⟩

end Network

end ContractNegotiation
