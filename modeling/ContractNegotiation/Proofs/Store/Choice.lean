import ContractNegotiation.Proofs.Store
import Mathlib.Data.Set.Card

namespace ContractNegotiation.Store

structure Available (s : Store) (code : Int) (role : Option Role) (now : Instant)
    (n : Negotiation) : Prop where
  stored : n ∈ s.records
  stateCode : n.stateCode = code
  role : n.role = role
  unleased : ∀ lease, s.leases.get? n.id = some lease → lease.expiresAt ≤ now

/-- Different available records, as many as are asked for or there are, by age, and none of those
left out is older than one of them. -/
structure Chooses (s : Store) (code : Int) (role : Option Role) (batch : Nat) (now : Instant)
    (ns : List Negotiation) : Prop where
  available : ∀ n ∈ ns, s.Available code role now n
  different : (ns.map Negotiation.id).Nodup
  length : ns.length = min batch {n | s.Available code role now n}.ncard
  ordered : ns.Pairwise fun a b => a.stateTimestamp ≤ b.stateTimestamp
  oldest : ∀ v, s.Available code role now v → v ∉ ns →
    ∀ n ∈ ns, n.stateTimestamp ≤ v.stateTimestamp

def reorder (s : Store) (order : List Negotiation) : Store := { s with records := order }

variable {s t : Store} {code : Int} {role : Option Role} {batch : Nat} {holder : String}
  {now : Instant} {n v : Negotiation} {ns vs order : List Negotiation}

theorem mem_candidates_iff : n ∈ s.candidates code role now ↔ s.Available code role now n := by
  have hlease : (s.liveLease? n.id now).isNone = true ↔
      ∀ lease, s.leases.get? n.id = some lease → lease.expiresAt ≤ now := by
    simp only [Option.isNone_iff_eq_none, liveLease?, Option.filter_eq_none_iff, decide_eq_true_eq,
      Instant.le_def, Instant.lt_def, Int.not_lt]
  simp only [candidates, List.mem_filter, Bool.and_eq_true, decide_eq_true_eq, hlease]
  exact ⟨fun h => ⟨h.1, h.2.1.1, h.2.1.2, h.2.2⟩, fun h => ⟨h.1, ⟨h.2, h.3⟩, h.4⟩⟩

theorem Tidy.nodup_candidates (hs : s.Tidy) : (s.candidates code role now).Nodup :=
  (List.Nodup.of_map _ hs).filter _

theorem Tidy.ncard_available (hs : s.Tidy) :
    {n | s.Available code role now n}.ncard = (s.candidates code role now).length := by
  have hset : {n | s.Available code role now n} = (s.candidates code role now).toFinset := by
    ext n
    simp [mem_candidates_iff]
  rw [hset, Set.ncard_coe_finset, List.toFinset_card_of_nodup hs.nodup_candidates]

def byAge (vs : List Negotiation) : List Negotiation :=
  vs.mergeSort fun a b => a.stateTimestamp ≤ b.stateTimestamp

theorem byAge_perm (vs : List Negotiation) : (byAge vs).Perm vs := List.mergeSort_perm _ _

theorem byAge_ordered (vs : List Negotiation) :
    (byAge vs).Pairwise fun a b => a.stateTimestamp ≤ b.stateTimestamp := by
  apply (List.pairwise_mergeSort _ _ _).imp fun h => of_decide_eq_true h
  · intro a b c hab hbc
    exact decide_eq_true (Int.le_trans (of_decide_eq_true hab) (of_decide_eq_true hbc))
  · intro a b
    simpa using Int.le_total a.stateTimestamp b.stateTimestamp

theorem byAge_of_ordered (h : vs.Pairwise fun a b => a.stateTimestamp ≤ b.stateTimestamp) :
    byAge vs = vs :=
  List.mergeSort_of_pairwise (h.imp fun hab => decide_eq_true hab)

theorem eq_take_of_leaseNext (h : s.leaseNext code role batch holder now = (ns, t)) :
    ns = (byAge (s.candidates code role now)).take batch := (Prod.mk.inj h).1.symm

theorem leaseNext_of_ordered (h : s.leaseNext code role batch holder now = (ns, t))
    (hvs : s.candidates code role now = vs)
    (hordered : vs.Pairwise fun a b => a.stateTimestamp ≤ b.stateTimestamp) :
    ns = vs.take batch := by
  rw [eq_take_of_leaseNext h, hvs, byAge_of_ordered hordered]

theorem leaseNext_full (h : s.leaseNext code role batch holder now = (ns, t))
    (hv : v ∈ s.candidates code role now) (hns : v ∉ ns) :
    ns.length = batch ∧ ∀ w ∈ ns, w.stateTimestamp ≤ v.stateTimestamp := by
  obtain rfl := eq_take_of_leaseNext h
  have hpairs := byAge_ordered (s.candidates code role now)
  have hmem : v ∈ byAge (s.candidates code role now) := (byAge_perm _).mem_iff.mpr hv
  rw [← List.take_append_drop batch (byAge _)] at hmem hpairs
  have hlate := (List.mem_append.mp hmem).resolve_left hns
  constructor
  · have hpos := List.length_pos_of_mem hlate
    rw [List.length_drop] at hpos
    rw [List.length_take]
    omega
  · intro w hw
    exact (List.pairwise_append.mp hpairs).2.2 w hw v hlate

theorem chooses_of_leaseNext (h : s.leaseNext code role batch holder now = (ns, t))
    (hs : s.Tidy) : s.Chooses code role batch now ns where
  available n hn := mem_candidates_iff.mp (mem_candidates_of_leaseNext h hn)
  different := (leases_of_leaseNext h).nodup hs
  length := by
    rw [eq_take_of_leaseNext h, List.length_take, (byAge_perm _).length_eq, hs.ncard_available]
  ordered := by
    rw [eq_take_of_leaseNext h]
    exact (byAge_ordered _).sublist (List.take_sublist _ _)
  oldest v hv hns := (leaseNext_full h (mem_candidates_iff.mpr hv) hns).2

theorem available_reorder (h : order.Perm s.records) :
    (s.reorder order).Available code role now n ↔ s.Available code role now n :=
  ⟨fun ⟨hn, hcode, hrole, hlease⟩ => ⟨h.mem_iff.mp hn, hcode, hrole, hlease⟩,
    fun ⟨hn, hcode, hrole, hlease⟩ => ⟨h.mem_iff.mpr hn, hcode, hrole, hlease⟩⟩

theorem Chooses.of_reorder (hc : (s.reorder order).Chooses code role batch now ns)
    (h : order.Perm s.records) : s.Chooses code role batch now ns := by
  obtain ⟨havailable, hdifferent, hlength, hordered, holdest⟩ := hc
  simp only [available_reorder h] at havailable hlength holdest
  exact ⟨havailable, hdifferent, hlength, hordered, holdest⟩

theorem Tidy.reorder (hs : s.Tidy) (h : order.Perm s.records) : (s.reorder order).Tidy :=
  (h.map _).nodup_iff.mpr hs

theorem exists_reorder (h : vs.Perm (s.candidates code role now)) :
    ∃ order, order.Perm s.records ∧ (s.reorder order).candidates code role now = vs := by
  let p (n : Negotiation) : Bool :=
    n.stateCode = code && n.role = role && (s.liveLease? n.id now).isNone
  have hall : ∀ n ∈ vs, p n = true := fun n hn => (List.mem_filter.mp (h.mem_iff.mp hn)).2
  have hnone : ∀ n ∈ s.records.filter (!p ·), ¬ p n = true := by
    intro n hn
    simpa using (List.mem_filter.mp hn).2
  refine ⟨vs ++ s.records.filter (!p ·),
    (h.append_right _).trans (List.filter_append_perm p s.records), ?_⟩
  change (vs ++ s.records.filter (!p ·)).filter p = vs
  rw [List.filter_append, List.filter_eq_self.mpr hall, List.filter_eq_nil_iff.mpr hnone,
    List.append_nil]

theorem Chooses.exists_others (h : s.Chooses code role batch now ns) (hs : s.Tidy) :
    ∃ others, (ns ++ others).Perm (s.candidates code role now) ∧
      (ns ++ others).Pairwise (fun a b => a.stateTimestamp ≤ b.stateTimestamp) ∧
      (ns ++ others).take batch = ns := by
  let others := byAge ((s.candidates code role now).filter (· ∉ ns))
  have hchosen : ((s.candidates code role now).filter (· ∈ ns)).Perm ns := by
    refine (List.perm_ext_iff_of_nodup (hs.nodup_candidates.filter _)
      (List.Nodup.of_map _ h.different)).mpr fun n => ?_
    simpa using fun hn => mem_candidates_iff.mpr (h.available n hn)
  have hperm : (ns ++ others).Perm (s.candidates code role now) := by
    refine (hchosen.symm.append (byAge_perm _)).trans ?_
    simpa using List.filter_append_perm (· ∈ ns) (s.candidates code role now)
  refine ⟨others, hperm, ?_, ?_⟩
  · refine List.pairwise_append.mpr ⟨h.ordered, byAge_ordered _, fun n hn v hv => ?_⟩
    obtain ⟨hv, hns⟩ := List.mem_filter.mp ((byAge_perm _).mem_iff.mp hv)
    exact h.oldest v (mem_candidates_iff.mp hv) (by simpa using hns) n hn
  -- Either the batch is full, or no candidate is left out.
  · have hlength := h.length
    rw [hs.ncard_available, ← hperm.length_eq, List.length_append] at hlength
    rcases Nat.le_total batch (ns.length + others.length) with hle | hle
    · rw [Nat.min_eq_left hle] at hlength
      exact List.take_left' hlength
    · rw [Nat.min_eq_right hle] at hlength
      have hnil : others = [] := List.eq_nil_of_length_eq_zero (by omega)
      rw [hnil, List.append_nil, List.take_of_length_le (by omega)]

theorem Chooses.exists_order (h : s.Chooses code role batch now ns) (hs : s.Tidy)
    (holder : String) : ∃ order t, order.Perm s.records ∧
      (s.reorder order).leaseNext code role batch holder now = (ns, t) := by
  obtain ⟨others, hperm, hordered, htake⟩ := h.exists_others hs
  obtain ⟨order, horder, hcandidates⟩ := exists_reorder hperm
  obtain ⟨ns', t, hnext⟩ : ∃ ns' t,
    (s.reorder order).leaseNext code role batch holder now = (ns', t) := ⟨_, _, rfl⟩
  have hns : ns' = ns := (leaseNext_of_ordered hnext hcandidates hordered).trans htake
  exact ⟨order, t, horder, hns ▸ hnext⟩

theorem find?_reorder (hs : s.Tidy) (h : order.Perm s.records) (id : String) :
    (s.reorder order).find? id = s.find? id := by
  cases hf : s.find? id with
  | none =>
    have hnone := notMem_of_find? hf
    rw [← (h.map _).mem_iff] at hnone
    simpa [find?, reorder] using hnone
  | some n =>
    obtain rfl := id_of_find? hf
    exact (hs.reorder h).find?_of_mem (h.mem_iff.mpr (mem_of_find? hf))

/-- Leasing, whatever is stored, leased and asked for. In whichever order the store holds its
records, it hands out different available ones, as many as are asked for or there are, by age and
none younger than one left out, all as they are stored. Just these are leased to the holder from now
on, and nothing else changes. Nothing but the order settles ties: of all choices that meet this,
each is made for some order. -/
theorem leaseNext_oldest (hs : s.Tidy) (code : Int) (role : Option Role) (batch : Nat)
    (holder : String) (now : Instant) :
    (∀ order, order.Perm s.records → ∃ ns t,
      (s.reorder order).leaseNext code role batch holder now = (ns, t) ∧
      s.Chooses code role batch now ns ∧
      (∀ n ∈ ns, s.find? n.id = some n) ∧
      t.records = order ∧ (∀ id, t.find? id = s.find? id) ∧ t.leaseDuration = s.leaseDuration ∧
      ∀ id, t.leases.get? id = if id ∈ ns.map Negotiation.id
        then some ⟨holder, now.later s.leaseDuration⟩ else s.leases.get? id) ∧
    ∀ ns, s.Chooses code role batch now ns → ∃ order t, order.Perm s.records ∧
      (s.reorder order).leaseNext code role batch holder now = (ns, t) := by
  refine ⟨fun order horder => ?_, fun ns h => h.exists_order hs holder⟩
  obtain ⟨ns, t, h⟩ : ∃ ns t, (s.reorder order).leaseNext code role batch holder now = (ns, t) :=
    ⟨_, _, rfl⟩
  have hchooses := (chooses_of_leaseNext h (hs.reorder horder)).of_reorder horder
  have hrecords : t.records = order := (leases_of_leaseNext h).records
  refine ⟨ns, t, h, hchooses, fun n hn => hs.find?_of_mem (hchooses.available n hn).stored,
    hrecords, fun id => ?_, ?_, fun id => ?_⟩
  · rw [← find?_reorder hs horder, find?, find?, hrecords]
    rfl
  · obtain ⟨-, rfl⟩ := Prod.mk.inj h
    rfl
  · rw [get?_leaseNext h]
    rfl

def requestSince (id : String) (since : Int) : Negotiation :=
  { id, role := some .consumer, stateCode := 100, stateCount := 1, stateTimestamp := since }

def shelf : Store where
  records := [requestSince "n-4" 3, requestSince "n-1" 7, requestSince "n-2" 7,
    requestSince "n-3" 7]
  leases := ⟨[("n-2", ⟨"other", .ofMillis 90⟩), ("n-3", ⟨"other", .ofMillis 40⟩)]⟩

theorem leaseNext_oldest_of_tied : shelf.Tidy ∧
    shelf.Chooses 100 (some .consumer) 2 (.ofMillis 50)
      [requestSince "n-4" 3, requestSince "n-1" 7] ∧
    shelf.Chooses 100 (some .consumer) 2 (.ofMillis 50)
      [requestSince "n-4" 3, requestSince "n-3" 7] := by
  have htidy : shelf.Tidy := by
    unfold Tidy
    decide
  have hchooses := (leaseNext_oldest htidy 100 (some .consumer) 2 "one" (.ofMillis 50)).1
  refine ⟨htidy, ?_, ?_⟩
  · obtain ⟨ns, t, h, hns, -⟩ := hchooses shelf.records (List.Perm.refl _)
    have hcandidates : (shelf.reorder shelf.records).candidates 100 (some .consumer)
        (.ofMillis 50) = [requestSince "n-4" 3, requestSince "n-1" 7, requestSince "n-3" 7] := by
      decide +kernel
    obtain rfl : ns = [requestSince "n-4" 3, requestSince "n-1" 7] :=
      leaseNext_of_ordered h hcandidates (by decide +kernel)
    exact hns
  · let order := [requestSince "n-4" 3, requestSince "n-3" 7, requestSince "n-2" 7,
      requestSince "n-1" 7]
    obtain ⟨ns, t, h, hns, -⟩ := hchooses order (by decide +kernel)
    have hcandidates : (shelf.reorder order).candidates 100 (some .consumer)
        (.ofMillis 50) = [requestSince "n-4" 3, requestSince "n-3" 7, requestSince "n-1" 7] := by
      decide +kernel
    obtain rfl : ns = [requestSince "n-4" 3, requestSince "n-3" 7] :=
      leaseNext_of_ordered h hcandidates (by decide +kernel)
    exact hns

end ContractNegotiation.Store
