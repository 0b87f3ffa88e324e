import ContractNegotiation.Proofs.Store

namespace ContractNegotiation

namespace Store

variable {s t u : Store} {role other : Role} {id holder : String} {now : Instant}
  {n v w : Negotiation}

def ofRole (s : Store) (role : Role) : List Negotiation :=
  s.records.filter fun v => v.role = some role

def besides (s : Store) (role : Role) : List Negotiation :=
  s.records.filter fun v => v.role ≠ some role

theorem mem_ofRole : v ∈ s.ofRole role ↔ v ∈ s.records ∧ v.role = some role := by
  simp [ofRole]

theorem mem_besides : v ∈ s.besides role ↔ v ∈ s.records ∧ v.role ≠ some role := by
  simp [besides]

theorem ofRole_of_besides (h : other ≠ role) :
    s.ofRole role = (s.besides other).filter fun v => v.role = some role := by
  rw [besides, List.filter_filter, ofRole]
  apply List.filter_congr
  intro v _
  grind

theorem ofRole_replace (hw : w.role = some role) (h : ∀ v ∈ s.besides role, v.id ≠ w.id) :
    (s.replace w).ofRole role = (s.ofRole role).map fun v => if v.id = w.id then w else v := by
  rw [ofRole, replace, List.filter_map, ofRole]
  congr 1
  apply List.filter_congr
  intro v hv
  by_cases hid : v.id = w.id
  · have hr : v.role = some role := by
      by_contra hr
      exact h v (mem_besides.mpr ⟨hv, hr⟩) hid
    simp [hid, hw, hr]
  · simp [hid]

theorem besides_replace (hw : w.role = some role) (h : ∀ v ∈ s.besides role, v.id ≠ w.id) :
    (s.replace w).besides role = s.besides role := by
  have hfilter : s.records.filter ((fun v : Negotiation => decide (v.role ≠ some role)) ∘
      fun v => if v.id = w.id then w else v) = s.besides role := by
    apply List.filter_congr
    intro v hv
    by_cases hid : v.id = w.id
    · have hr : v.role = some role := by
        by_contra hr
        exact h v (mem_besides.mpr ⟨hv, hr⟩) hid
      simp [hid, hw, hr]
    · simp [hid]
  rw [besides, replace, List.filter_map, hfilter]
  conv_rhs => rw [← List.map_id (s.besides role)]
  apply List.map_congr_left
  intro v hv
  exact if_neg (h v hv)

theorem Saved.ofRole (h : s.Saved n w t) (hn : n.role = some role)
    (hid : ∀ v ∈ s.besides role, v.id ≠ n.id) : t.ofRole role =
      if n.stateCount = 0 then w :: s.ofRole role
      else (s.ofRole role).map fun v => if v.id = w.id then w else v := by
  cases h with
  | first _ hc _ => simp [Store.ofRole, hn, hc]
  | next _ _ hc _ _ =>
    rw [if_neg hc]
    exact ofRole_replace hn hid

theorem Saved.besides (h : s.Saved n w t) (hn : n.role = some role)
    (hid : ∀ v ∈ s.besides role, v.id ≠ n.id) : t.besides role = s.besides role := by
  cases h with
  | first _ _ _ => simp [Store.besides, hn]
  | next => exact besides_replace hn hid

theorem candidates_of_role (s : Store) (code : Int) (role : Role) (now : Instant) :
    s.candidates code (some role) now = (s.ofRole role).filter fun v =>
      v.stateCode = code && (s.liveLease? v.id now).isNone := by
  rw [candidates, ofRole, List.filter_filter]
  apply List.filter_congr
  intro v _
  grind

structure Untouched (role : Role) (Kept : String → Prop) (s t : Store) : Prop where
  tidy : t.Tidy
  besides : t.besides role = s.besides role
  leases : ∀ id, Kept id → t.leases.get? id = s.leases.get? id
  leaseDuration : t.leaseDuration = s.leaseDuration
  ofRole : ∀ v ∈ t.ofRole role, ¬ Kept v.id

section Untouched

variable {Kept : String → Prop} (hkept : ∀ v ∈ s.besides role, Kept v.id)
  (h : s.Untouched role Kept t)
include hkept h

theorem Untouched.saved (hs : t.Saved n w u) (hn : n.role = some role) (hid : ¬ Kept n.id) :
    s.Untouched role Kept u := by
  have hne : ∀ v ∈ t.besides role, v.id ≠ n.id := by
    intro v hv he
    exact hid (he ▸ hkept v (h.besides ▸ hv))
  refine ⟨hs.tidy h.tidy, (hs.besides hn hne).trans h.besides, ?_, ?_, ?_⟩
  · intro id hk
    rw [hs.leases]
    exact h.leases id hk
  · rw [hs.leaseDuration, h.leaseDuration]
  · intro v hv
    rw [hs.ofRole hn hne] at hv
    split at hv
    · rcases List.mem_cons.mp hv with rfl | hv
      · rwa [hs.id]
      · exact h.ofRole v hv
    · obtain ⟨v', hv', rfl⟩ := List.mem_map.mp hv
      split
      · rwa [hs.id]
      · exact h.ofRole v' hv'

omit hkept in
theorem Untouched.not_kept (hs : t.Saved n w u) (hc : n.stateCount = 0)
    (hid : Kept n.id → ∃ v ∈ s.besides role, v.id = n.id) : ¬ Kept n.id := by
  intro hk
  obtain ⟨v, hv, hvid⟩ := hid hk
  rw [← h.besides] at hv
  cases hs with
  | first _ _ hnone =>
    rw [← hvid, h.tidy.find?_of_mem (mem_besides.mp hv).1] at hnone
    cases hnone
  | next _ _ hne => exact hne hc

omit hkept in
theorem Untouched.leased {code : Int} {batch : Nat} {ns : List Negotiation}
    (hl : t.leaseNext code (some role) batch holder now = (ns, u)) :
    s.Untouched role Kept u ∧ ∀ v ∈ ns, ¬ Kept v.id ∧ v.role = some role := by
  have hleases := leases_of_leaseNext hl
  have hns (v : Negotiation) (hv : v ∈ ns) : ¬ Kept v.id ∧ v.role = some role :=
    ⟨h.ofRole v (mem_ofRole.mpr ⟨hleases.stored v hv, hleases.role v hv⟩), hleases.role v hv⟩
  have hduration : u.leaseDuration = t.leaseDuration := by
    obtain ⟨-, rfl⟩ := Prod.mk.inj hl
    rfl
  refine ⟨⟨?_, ?_, ?_, hduration.trans h.leaseDuration, ?_⟩, hns⟩
  · simpa only [Tidy, hleases.records] using h.tidy
  · simpa only [Store.besides, hleases.records] using h.besides
  · intro id hk
    rw [get?_leaseNext hl, if_neg, h.leases id hk]
    intro hmem
    obtain ⟨v, hv, rfl⟩ := List.mem_map.mp hmem
    exact (hns v hv).1 hk
  · simpa only [Store.ofRole, hleases.records] using h.ofRole

omit hkept in
theorem Untouched.broken (hb : t.breakLease id holder now = .ok u) (hid : ¬ Kept id) :
    s.Untouched role Kept u := by
  rcases breakLease_cases hb with rfl | rfl
  · exact h
  · refine ⟨h.tidy, h.besides, ?_, h.leaseDuration, h.ofRole⟩
    intro key hk
    rw [Table.get?_erase, if_neg, h.leases key hk]
    rintro rfl
    exact hid hk

end Untouched

structure Spares (role : Role) (s t : Store) : Prop where
  besides : t.besides role = s.besides role
  leases : ∀ v ∈ s.besides role, t.leases.get? v.id = s.leases.get? v.id
  inserted : ∀ v ∈ t.records, s.find? v.id = none → v.role = some role

theorem Untouched.spares {Kept : String → Prop} (h : s.Untouched role Kept t)
    (hkept : ∀ v ∈ s.besides role, Kept v.id) : s.Spares role t where
  besides := h.besides
  leases v hv := h.leases v.id (hkept v hv)
  inserted v hv hnone := by
    by_contra hr
    have hbesides : v ∈ s.besides role := h.besides ▸ mem_besides.mpr ⟨hv, hr⟩
    exact notMem_of_find? hnone (List.mem_map_of_mem (mem_besides.mp hbesides).1)

theorem Tidy.not_besides (hs : s.Tidy) (hv : v ∈ s.ofRole role) :
    ¬ ∃ w ∈ s.besides role, w.id = v.id := by
  rintro ⟨w, hw, hid⟩
  obtain ⟨hv, hr⟩ := mem_ofRole.mp hv
  obtain ⟨hw, hr'⟩ := mem_besides.mp hw
  have hfind := hs.find?_of_mem hw
  rw [hid, hs.find?_of_mem hv] at hfind
  obtain rfl := Option.some.inj hfind
  exact hr' hr

end Store

structure Negotiation.Apart (mine : String → Prop) (v : Negotiation) : Prop where
  id : ¬ mine v.id
  correlationId : v.correlationId ≠ "" → ¬ mine v.correlationId

namespace Store

/-- Stores with the same records of a role, in the same order, and the same leases on these. The
other records have nothing to do with the ids that are `mine`. -/
structure Twin (role : Role) (mine : String → Prop) (s t : Store) : Prop where
  tidy : s.Tidy ∧ t.Tidy
  records : s.ofRole role = t.ofRole role
  leases : ∀ id, mine id → s.leases.get? id = t.leases.get? id
  leaseDuration : s.leaseDuration = t.leaseDuration
  ofRole : ∀ v ∈ s.ofRole role, mine v.id
  besides : (∀ v ∈ s.besides role, v.Apart mine) ∧ ∀ v ∈ t.besides role, v.Apart mine

variable {s t s' t' : Store} {role : Role} {mine : String → Prop} {id holder : String}
  {now : Instant} {n : Negotiation}

theorem find?_ofRole (p : Negotiation → Bool) (h : ∀ v ∈ s.besides role, p v = false) :
    s.records.find? p = (s.ofRole role).find? p := by
  rw [ofRole, ← List.head?_filter, ← List.head?_filter, List.filter_filter]
  congr 1
  apply List.filter_congr
  intro v hv
  by_cases hr : v.role = some role
  · simp [hr]
  · simp [h v (mem_besides.mpr ⟨hv, hr⟩)]

section Twin

variable (h : Twin role mine s t)
include h

theorem Twin.find?_of_mine (hid : mine id) :
    s.find? id = (s.ofRole role).find? (·.id = id) ∧
      t.find? id = (s.ofRole role).find? (·.id = id) := by
  have apart (u : Store) (hu : ∀ v ∈ u.besides role, v.Apart mine) :
      ∀ v ∈ u.besides role, decide (v.id = id) = false := by
    intro v hv
    apply decide_eq_false
    rintro rfl
    exact (hu v hv).id hid
  constructor
  · exact find?_ofRole _ (apart s h.besides.1)
  · rw [h.records]
    exact find?_ofRole _ (apart t h.besides.2)

theorem Twin.find?_of_not_mine (hid : ¬ mine id) :
    (s.find? id).filter (·.role = some role) = none ∧
      (t.find? id).filter (·.role = some role) = none := by
  have absent (u : Store) (hu : ∀ v ∈ u.ofRole role, mine v.id) :
      (u.find? id).filter (·.role = some role) = none := by
    rw [Option.filter_eq_none_iff]
    intro v hv hr
    apply hid
    rw [← id_of_find? hv]
    exact hu v (mem_ofRole.mpr ⟨mem_of_find? hv, of_decide_eq_true hr⟩)
  exact ⟨absent s h.ofRole, absent t (h.records ▸ h.ofRole)⟩

theorem Twin.findByCorrelation? {c : String} (hc : mine c) :
    s.findByCorrelation? c = t.findByCorrelation? c ∧
      ∀ v, s.findByCorrelation? c = some v → v ∈ s.ofRole role := by
  unfold Store.findByCorrelation?
  split
  · exact ⟨rfl, by simp⟩
  · rename_i hne
    have apart (u : Store) (hu : ∀ v ∈ u.besides role, v.Apart mine) :
        ∀ v ∈ u.besides role, decide (v.correlationId = c) = false := by
      intro v hv
      apply decide_eq_false
      rintro rfl
      exact (hu v hv).correlationId hne hc
    rw [find?_ofRole _ (apart s h.besides.1), find?_ofRole _ (apart t h.besides.2), h.records]
    exact ⟨rfl, fun v hv => List.mem_of_find?_eq_some hv⟩

theorem Twin.saved {w : Negotiation} (hs : s.Saved n w s') (ht : t.Saved n w t')
    (hn : n.role = some role) (hid : mine n.id) : Twin role mine s' t' := by
  have apart (u : Store) (hu : ∀ v ∈ u.besides role, v.Apart mine) :
      ∀ v ∈ u.besides role, v.id ≠ n.id := by
    intro v hv he
    exact (hu v hv).id (he ▸ hid)
  have hs' := apart s h.besides.1
  have ht' := apart t h.besides.2
  refine ⟨⟨hs.tidy h.tidy.1, ht.tidy h.tidy.2⟩, ?_, ?_, ?_, ?_, ?_⟩
  · rw [hs.ofRole hn hs', ht.ofRole hn ht', h.records]
  · rw [hs.leases, ht.leases]
    exact h.leases
  · rw [hs.leaseDuration, ht.leaseDuration, h.leaseDuration]
  · intro v hv
    rw [hs.ofRole hn hs'] at hv
    split at hv
    · rcases List.mem_cons.mp hv with rfl | hv
      · rwa [hs.id]
      · exact h.ofRole v hv
    · obtain ⟨v', hv', rfl⟩ := List.mem_map.mp hv
      split
      · rwa [hs.id]
      · exact h.ofRole v' hv'
  · rw [hs.besides hn hs', ht.besides hn ht']
    exact h.besides

theorem Twin.symm : Twin role mine t s where
  tidy := h.tidy.symm
  records := h.records.symm
  leases id hid := (h.leases id hid).symm
  leaseDuration := h.leaseDuration.symm
  ofRole v hv := h.ofRole v (h.records ▸ hv)
  besides := h.besides.symm

theorem Twin.untouched {u : Store} {other : Role} {Kept : String → Prop} (ho : other ≠ role)
    (hu : s.Untouched other Kept u) (hkept : ∀ id, mine id → Kept id)
    (hapart : ∀ v ∈ u.besides role, v.Apart mine) : Twin role mine u t := by
  have hrecords : u.ofRole role = s.ofRole role := by
    rw [ofRole_of_besides ho, hu.besides, ← ofRole_of_besides ho]
  refine ⟨⟨hu.tidy, h.tidy.2⟩, hrecords.trans h.records, ?_, ?_, ?_, hapart, h.besides.2⟩
  · intro id hid
    rw [hu.leases id (hkept id hid), h.leases id hid]
  · rw [hu.leaseDuration, h.leaseDuration]
  · rw [hrecords]
    exact h.ofRole

theorem Twin.liveLease? (hid : mine id) : s.liveLease? id now = t.liveLease? id now := by
  rw [Store.liveLease?, Store.liveLease?, h.leases id hid]

theorem Twin.save (hn : n.role = some role) (hid : mine n.id) :
    (∃ e, s.save n holder now = .error e ∧ t.save n holder now = .error e) ∨
      ∃ w s' t', s.save n holder now = .ok (w, s') ∧ t.save n holder now = .ok (w, t') ∧
        Twin role mine s' t' := by
  have hsame : (s.save n holder now).map Prod.fst = (t.save n holder now).map Prod.fst := by
    obtain ⟨hs, ht⟩ := h.find?_of_mine hid
    unfold Store.save
    rw [hs, ht, h.liveLease? hid]
    split
    · rfl
    · split
      · split <;> rfl
      · split
        · rfl
        · split
          · rfl
          · split <;> rfl
  cases hs : s.save n holder now with
  | error e =>
    cases ht : t.save n holder now with
    | error e' =>
      rw [hs, ht] at hsame
      cases hsame
      exact .inl ⟨e, rfl, rfl⟩
    | ok saved =>
      rw [hs, ht] at hsame
      cases hsame
  | ok saved =>
    cases ht : t.save n holder now with
    | error e =>
      rw [hs, ht] at hsame
      cases hsame
    | ok saved' =>
      rw [hs, ht] at hsame
      obtain ⟨w, s'⟩ := saved
      obtain ⟨w', t'⟩ := saved'
      obtain rfl : w = w' := Except.ok.inj hsame
      exact .inr ⟨w, s', t', rfl, rfl, h.saved (saved_of_save hs) (saved_of_save ht) hn hid⟩

theorem Twin.leased {code : Int} {batch : Nat} {ns ns' : List Negotiation}
    (hs : s.leaseNext code (some role) batch holder now = (ns, s'))
    (ht : t.leaseNext code (some role) batch holder now = (ns', t')) :
    ns = ns' ∧ Twin role mine s' t' := by
  have hcandidates : s.candidates code (some role) now = t.candidates code (some role) now := by
    rw [candidates_of_role, candidates_of_role, ← h.records]
    apply List.filter_congr
    intro v hv
    rw [h.liveLease? (h.ofRole v hv)]
  have hleases (id : String) : s'.leases.get? id = _ := get?_leaseNext hs
  have hleases' (id : String) : t'.leases.get? id = _ := get?_leaseNext ht
  obtain ⟨rfl, rfl⟩ := Prod.mk.inj hs
  obtain ⟨rfl, rfl⟩ := Prod.mk.inj ht
  rw [← hcandidates] at hleases' ⊢
  refine ⟨rfl, h.tidy, h.records, ?_, h.leaseDuration, h.ofRole, h.besides⟩
  intro id hid
  rw [hleases, hleases', h.leaseDuration, h.leases id hid]

theorem Twin.breakLease (hid : mine id) :
    (∃ e, s.breakLease id holder now = .error e ∧ t.breakLease id holder now = .error e) ∨
      ∃ s' t', s.breakLease id holder now = .ok s' ∧ t.breakLease id holder now = .ok t' ∧
        Twin role mine s' t' := by
  have herased : Twin role mine { s with leases := s.leases.erase id }
      { t with leases := t.leases.erase id } := by
    refine ⟨h.tidy, h.records, ?_, h.leaseDuration, h.ofRole, h.besides⟩
    intro key hkey
    rw [Table.get?_erase, Table.get?_erase, h.leases key hkey]
  unfold Store.breakLease
  rw [h.leases id hid]
  cases t.leases.get? id with
  | none => exact .inr ⟨s, t, rfl, rfl, h⟩
  | some lease =>
    by_cases hheld : lease.holder ≠ holder ∧ now < lease.expiresAt
    · exact .inl ⟨_, if_pos hheld, if_pos hheld⟩
    · exact .inr ⟨_, _, if_neg hheld, if_neg hheld, herased⟩

end Twin

end Store

end ContractNegotiation
