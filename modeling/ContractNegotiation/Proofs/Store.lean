import ContractNegotiation.Proofs.Transition
import ContractNegotiation.Store
import Mathlib.Data.List.Nodup
import Mathlib.Data.List.Perm.Basic

namespace ContractNegotiation

namespace Negotiation

def version (n : Negotiation) : Nat := (n.stateCount - 1).toNat

theorem stateCount_eq_of_version {v w : Negotiation} (h : v.version = w.version) :
    v.stateCount = w.stateCount := by
  have h : v.stateCount - 1 = w.stateCount - 1 := UInt64.toNat_inj.mp h
  grind

theorem version_succ {v w : Negotiation} (hv : v.stateCount ≠ 0)
    (hw : w.stateCount = v.stateCount + 1) : w.version = v.version + 1 := by
  have hv : v.stateCount.toNat ≠ 0 := fun h => hv (UInt64.toNat_inj.mp h)
  have hle : (1 : UInt64) ≤ v.stateCount :=
    UInt64.le_iff_toNat_le.mpr (Nat.one_le_iff_ne_zero.mpr hv)
  have hw : w.stateCount - 1 = v.stateCount := by grind
  rw [version, version, hw, UInt64.toNat_sub_of_le _ _ hle]
  simp only [UInt64.reduceToNat]
  omega

theorem toNat_stateCount {v : Negotiation} (h : v.stateCount ≠ 0) :
    v.stateCount.toNat = v.version + 1 := by
  have hnext := version_succ (w := { v with stateCount := v.stateCount + 1 }) h rfl
  rw [← hnext]
  simp [version]

end Negotiation

namespace Store

variable {s t : Store} {n v w : Negotiation} {key : String}

def Tidy (s : Store) : Prop := (s.records.map Negotiation.id).Nodup

theorem tidy_of_records (h : s.records = []) : s.Tidy := by
  simp [Tidy, h]

theorem mem_of_find? (h : s.find? key = some n) : n ∈ s.records := List.mem_of_find?_eq_some h

theorem Tidy.find?_of_mem (hs : s.Tidy) (hn : n ∈ s.records) : s.find? n.id = some n := by
  obtain ⟨d, records, leases⟩ := s
  simp only [Tidy] at hs
  simp only [find?]
  induction records with
  | nil => cases hn
  | cons m ms ih =>
    simp only [List.map_cons, List.nodup_cons] at hs
    rcases List.mem_cons.mp hn with rfl | hn
    · simp
    · have hm : m.id ≠ n.id := fun h => hs.1 (h ▸ List.mem_map_of_mem hn)
      simpa [List.find?_cons, hm] using ih hs.2 hn

theorem find?_cons (s : Store) (n : Negotiation) (id : String) :
    ({ s with records := n :: s.records } : Store).find? id =
      if n.id = id then some n else s.find? id := by
  by_cases h : n.id = id <;> simp [find?, h]

theorem notMem_of_find? (h : s.find? key = none) : key ∉ s.records.map Negotiation.id := by
  simpa [find?] using h

theorem Tidy.cons (hs : s.Tidy) (h : s.find? n.id = none) :
    ({ s with records := n :: s.records } : Store).Tidy :=
  List.nodup_cons.mpr ⟨notMem_of_find? h, hs⟩

theorem ids_replace (s : Store) (n : Negotiation) :
    (s.replace n).records.map Negotiation.id = s.records.map Negotiation.id := by
  simp only [Store.replace, List.map_map]
  apply List.map_congr_left
  intro m _
  by_cases h : m.id = n.id <;> simp [h]

theorem Tidy.replace (hs : s.Tidy) (n : Negotiation) : (s.replace n).Tidy := by
  unfold Tidy
  rw [ids_replace]
  exact hs

theorem correlationId_of_findByCorrelation? {c : String} (h : s.findByCorrelation? c = some n) :
    n ∈ s.records ∧ n.correlationId = c ∧ c ≠ "" := by
  unfold findByCorrelation? at h
  split at h
  · cases h
  · rename_i hc
    exact ⟨List.mem_of_find?_eq_some h, by simpa using List.find?_some h, hc⟩

theorem exists_findByCorrelation? (hn : n ∈ s.records) (hc : n.correlationId ≠ "") :
    ∃ v, s.findByCorrelation? n.correlationId = some v := by
  rw [findByCorrelation?, if_neg hc, ← Option.isSome_iff_exists, List.find?_isSome]
  exact ⟨n, hn, by simp⟩

inductive Saved (s : Store) (n : Negotiation) : Negotiation → Store → Prop where
  | first : n.id ≠ "" → n.stateCount = 0 → s.find? n.id = none →
      Saved s n { n with stateCount := 1 }
        { s with records := { n with stateCount := 1 } :: s.records }
  | next (v : Negotiation) : n.id ≠ "" → n.stateCount ≠ 0 → s.find? n.id = some v →
      v.stateCount = n.stateCount →
      Saved s n { n with stateCount := n.stateCount + 1 }
        (s.replace { n with stateCount := n.stateCount + 1 })

theorem saved_of_save {holder : String} {now : Instant} (h : s.save n holder now = .ok (w, t)) :
    Saved s n w t := by
  unfold save at h
  split at h
  · cases h
  · rename_i hid
    split at h
    · rename_i hc
      split at h <;> cases h
      rename_i hf
      exact .first hid hc hf
    · rename_i hc
      split at h
      · cases h
      · rename_i v hf
        split at h
        · cases h
        · split at h <;> cases h
          rename_i hv
          exact .next v hid hc hf (by simpa using hv)

theorem save_next {holder : String} {now : Instant} (hid : n.id ≠ "") (hc : n.stateCount ≠ 0)
    (hf : s.find? n.id = some v) (hv : v.stateCount = n.stateCount)
    (hl : ∀ lease, s.leases.get? n.id = some lease → lease.holder = holder) :
    s.save n holder now = .ok ({ n with stateCount := n.stateCount + 1 },
      s.replace { n with stateCount := n.stateCount + 1 }) := by
  have hfree : (s.liveLease? n.id now).filter (·.holder ≠ holder) = none := by
    simp only [liveLease?, Option.filter_eq_none_iff, Option.filter_eq_some_iff]
    intro lease h
    simpa using hl lease h.1
  simp only [save, hid, hc, hf, hfree, hv, ne_eq, not_true_eq_false, if_false]

theorem save_stored {holder : String} {now : Instant} (hid : n.id ≠ "") (hc : n.stateCount = 0)
    (hf : s.find? n.id = some v) : s.save n holder now = .error (.alreadyStored n.id) := by
  simp only [save, hid, hc, hf, if_true, if_false]

structure Grants (s : Store) (n : Negotiation) (holder : String) : Prop where
  id : n.id ≠ ""
  counted : n.stateCount ≠ 0
  stored : s.find? n.id = some n
  lease : ∀ lease, s.leases.get? n.id = some lease → lease.holder = holder

theorem Saved.id (h : Saved s n w t) : w.id = n.id := by cases h <;> rfl

theorem Saved.role (h : Saved s n w t) : w.role = n.role := by cases h <;> rfl

theorem Saved.state (h : Saved s n w t) : w.state = n.state := by cases h <;> rfl

theorem Saved.leases (h : Saved s n w t) : t.leases = s.leases := by
  cases h <;> rfl

theorem Saved.leaseDuration (h : Saved s n w t) : t.leaseDuration = s.leaseDuration := by
  cases h <;> rfl

theorem Saved.tidy (h : Saved s n w t) (hs : s.Tidy) : t.Tidy := by
  cases h with
  | first _ _ hf => exact Tidy.cons hs hf
  | next => exact hs.replace _

theorem Saved.find? (h : Saved s n w t) (id : String) :
    t.find? id = if id = w.id then some w else s.find? id := by
  cases h with
  | first _ _ hf =>
    rw [find?_cons]
    simp only [eq_comm]
  | next v _ _ hf _ =>
    rw [find?_replace]
    by_cases hi : id = n.id
    · simp [hi, hf]
    · simp [hi]

structure Leases (s : Store) (code : Int) (role : Option Role) (holder : String)
    (ns : List Negotiation) (t : Store) : Prop where
  records : t.records = s.records
  stored : ∀ n ∈ ns, n ∈ s.records
  stateCode : ∀ n ∈ ns, n.stateCode = code
  role : ∀ n ∈ ns, n.role = role
  nodup : s.Tidy → (ns.map Negotiation.id).Nodup
  held : ∀ n ∈ ns, ∃ lease, t.leases.get? n.id = some lease ∧ lease.holder = holder

theorem get?_foldl_insert (lease : Lease) (chosen : List Negotiation) (leases : Table Lease) :
    (chosen.foldl (fun leases n => leases.insert n.id lease) leases).get? key =
      if key ∈ chosen.map Negotiation.id then some lease else leases.get? key := by
  induction chosen generalizing leases with
  | nil => simp
  | cons m ms ih =>
    rw [List.foldl_cons, ih, Table.get?_insert]
    by_cases hm : key = m.id <;> simp [hm]

theorem get?_leaseNext {code : Int} {role : Option Role} {batch : Nat} {holder : String}
    {now : Instant} {ns : List Negotiation} (h : s.leaseNext code role batch holder now = (ns, t)) :
    t.leases.get? key = if key ∈ ns.map Negotiation.id
      then some ⟨holder, now.later s.leaseDuration⟩ else s.leases.get? key := by
  obtain ⟨rfl, rfl⟩ := Prod.mk.inj h
  exact get?_foldl_insert _ _ _

theorem mem_candidates_of_leaseNext {code : Int} {role : Option Role} {batch : Nat}
    {holder : String} {now : Instant} {ns : List Negotiation}
    (h : s.leaseNext code role batch holder now = (ns, t)) (hn : n ∈ ns) :
    n ∈ s.candidates code role now := by
  obtain ⟨rfl, rfl⟩ := Prod.mk.inj h
  exact (List.mergeSort_perm _ _).mem_iff.mp (List.mem_of_mem_take hn)

theorem leases_of_leaseNext {code : Int} {role : Option Role} {batch : Nat} {holder : String}
    {now : Instant} {ns : List Negotiation} (h : s.leaseNext code role batch holder now = (ns, t)) :
    Leases s code role holder ns t := by
  have hmem (n : Negotiation) (hn : n ∈ ns) :
      n ∈ s.records ∧ n.stateCode = code ∧ n.role = role := by
    have hn := mem_candidates_of_leaseNext h hn
    simp only [candidates, List.mem_filter, Bool.and_eq_true, decide_eq_true_eq] at hn
    exact ⟨hn.1, hn.2.1⟩
  obtain ⟨rfl, rfl⟩ := Prod.mk.inj h
  refine ⟨rfl, fun n hn => (hmem n hn).1, fun n hn => (hmem n hn).2.1,
    fun n hn => (hmem n hn).2.2, fun hs => ?_, fun n hn => ?_⟩
  · have hc : ((s.candidates code role now).map Negotiation.id).Nodup :=
      hs.sublist (List.Sublist.map _ List.filter_sublist)
    have hperm := List.mergeSort_perm (s.candidates code role now) fun a b =>
      decide (a.stateTimestamp ≤ b.stateTimestamp)
    exact ((hperm.map _).nodup_iff.mpr hc).sublist (List.Sublist.map _ (List.take_sublist _ _))
  · refine ⟨⟨holder, now.later s.leaseDuration⟩, ?_, rfl⟩
    exact (get?_leaseNext rfl).trans (if_pos (List.mem_map_of_mem hn))

theorem breakLease_cases {holder : String} {now : Instant}
    (h : s.breakLease key holder now = .ok t) :
    t = s ∨ t = { s with leases := s.leases.erase key } := by
  unfold breakLease at h
  split at h
  · cases h
    exact .inl rfl
  · split at h <;> cases h
    exact .inr rfl

end Store

end ContractNegotiation
