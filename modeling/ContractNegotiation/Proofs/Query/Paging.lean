import ContractNegotiation.Proofs.Network
import Mathlib.Data.List.Nodup
import Mathlib.Data.String.Basic

namespace ContractNegotiation

def Negotiation.Ahead (a b : Negotiation) : Prop :=
  a.createdAt < b.createdAt ∨ a.createdAt = b.createdAt ∧ a.id < b.id

theorem Negotiation.Ahead.asymm {a b : Negotiation} (h : a.Ahead b) : ¬ b.Ahead a := by
  rcases h with h | ⟨h, hid⟩
  · rintro (hba | ⟨hba, -⟩) <;> omega
  · rintro (hba | ⟨-, hid'⟩)
    · omega
    · exact lt_asymm hid hid'

namespace Query

theorem Operator.ofText?_eq_none {s : String} :
    Operator.ofText? s = none ↔ s ∉ ["=", "!=", "in", "like"] := by
  rw [ofText?, List.find?_eq_none]
  simp [all, text, eq_comm (b := s)]

def Criterion.Flawed (c : Criterion) : Prop :=
  c.op ∉ ["=", "!=", "in", "like"] ∨ ∃ error, checkPath .negotiation c.path = .error error

theorem Criterion.flaw?_eq_none {c : Criterion} : c.flaw? = none ↔ ¬ c.Flawed := by
  rw [Flawed, ← Operator.ofText?_eq_none, flaw?]
  cases hop : Operator.ofText? c.op with
  | none => simp
  | some op => cases hpath : checkPath .negotiation c.path <;> simp

namespace Spec

def window (filter : List Criterion) (offset limit : UInt64) : Spec :=
  ⟨filter, offset.toNat, limit.toNat⟩

def listing (filter : List Criterion) (records : List Negotiation) : List Negotiation :=
  (window filter 0 0).matching records

variable {q : Spec} {a b c : Negotiation} {records order : List Negotiation}

theorem precedes_trans (a b c : Negotiation) (hab : precedes a b = true)
    (hbc : precedes b c = true) : precedes a c = true := by
  simp only [precedes, Bool.or_eq_true, Bool.and_eq_true, decide_eq_true_eq] at *
  rcases hab with hab | ⟨hab, hid⟩ <;> rcases hbc with hbc | ⟨hbc, hid'⟩
  · exact .inl (hab.trans hbc)
  · exact .inl (hbc ▸ hab)
  · exact .inl (hab ▸ hbc)
  · exact .inr ⟨hab.trans hbc, hid.trans hid'⟩

theorem precedes_total (a b : Negotiation) : (precedes a b || precedes b a) = true := by
  simp only [precedes, Bool.or_eq_true, Bool.and_eq_true, decide_eq_true_eq]
  rcases lt_trichotomy a.createdAt b.createdAt with h | h | h
  · exact .inl (.inl h)
  · rcases le_total a.id b.id with hid | hid
    · exact .inl (.inr ⟨h, hid⟩)
    · exact .inr (.inr ⟨h.symm, hid⟩)
  · exact .inr (.inl h)

theorem ahead_of_precedes (h : precedes a b = true) (hne : a.id ≠ b.id) : a.Ahead b := by
  simp only [precedes, Bool.or_eq_true, Bool.and_eq_true, decide_eq_true_eq] at h
  exact h.imp_right fun ⟨hat, hid⟩ => ⟨hat, lt_of_le_of_ne hid hne⟩

theorem matching_perm (q : Spec) (records : List Negotiation) :
    (q.matching records).Perm (records.filter q.selects) := List.mergeSort_perm _ _

theorem matching_ahead (h : (records.map Negotiation.id).Nodup) :
    (q.matching records).Pairwise Negotiation.Ahead := by
  have hsorted : (q.matching records).Pairwise fun a b => precedes a b = true :=
    List.pairwise_mergeSort precedes_trans precedes_total _
  have hfiltered : ((records.filter q.selects).map Negotiation.id).Nodup :=
    h.sublist (List.filter_sublist.map _)
  have hids : ((q.matching records).map Negotiation.id).Nodup :=
    ((matching_perm q records).map _).nodup_iff.mpr hfiltered
  exact hsorted.imp₂ (fun _ _ => ahead_of_precedes) (List.pairwise_map.mp hids)

theorem matching_congr (h : (records.map Negotiation.id).Nodup) (horder : order.Perm records) :
    q.matching order = q.matching records := by
  have hperm : (q.matching order).Perm (q.matching records) :=
    (matching_perm q order).trans ((horder.filter _).trans (matching_perm q records).symm)
  have hids : (order.map Negotiation.id).Nodup := (horder.map _).nodup_iff.mpr h
  exact hperm.eq_of_pairwise (fun a b _ _ hab hba => absurd hba hab.asymm) (matching_ahead hids)
    (matching_ahead h)

theorem length_matching_le : (q.matching records).length ≤ records.length := by
  rw [(matching_perm q records).length_eq]
  exact List.length_filter_le _ _

section Pages

variable {α : Type} {xs : List α}

theorem page_eq (h : xs.length < 2 ^ 64) (offset limit : UInt64) :
    page offset limit xs = (xs.drop offset.toNat).take limit.toNat := by
  have hsize : (UInt64.ofNat xs.length).toNat = xs.length := UInt64.toNat_ofNat_of_lt' h
  simp only [page, UInt64.le_iff_toNat_le, hsize]
  split
  · rename_i hle
    simp [List.drop_eq_nil_of_le hle]
  · rename_i hlt
    have hrest : (UInt64.ofNat xs.length - offset).toNat = xs.length - offset.toNat := by
      rw [UInt64.toNat_sub_of_le _ _ (UInt64.le_iff_toNat_le.mpr (by omega)), hsize]
    have hstop : (offset + min limit (UInt64.ofNat xs.length - offset)).toNat =
        offset.toNat + min limit.toNat (xs.length - offset.toNat) := by
      rw [UInt64.toNat_add, UInt64.toNat_min, hrest, Nat.mod_eq_of_lt (by omega)]
    rw [List.extract_eq_take_drop, hstop, Nat.add_sub_cancel_left, List.take_eq_take_iff]
    simp

theorem flatMap_pages (xs : List α) (size count : Nat) :
    (List.range count).flatMap (fun k => (xs.drop (k * size)).take size) =
      xs.take (count * size) := by
  induction count with
  | zero => simp
  | succ count ih =>
    rw [List.range_succ, List.flatMap_append, ih, Nat.succ_mul, List.take_add]
    simp

theorem disjoint_pages (h : xs.Nodup) {size k l : Nat} (hkl : k < l) :
    ((xs.drop (k * size)).take size).Disjoint ((xs.drop (l * size)).take size) := by
  have hbound : k * size + size ≤ l * size := by
    rw [← Nat.succ_mul]
    exact Nat.mul_le_mul_right size hkl
  have hdisjoint : (xs.take (l * size)).Disjoint (xs.drop (l * size)) :=
    List.disjoint_take_drop h (Nat.le_refl _)
  intro x hk hl
  rw [List.take_drop] at hk
  exact hdisjoint ((List.take_prefix_take_left hbound).subset (List.mem_of_mem_drop hk))
    (List.mem_of_mem_take hl)

theorem existsUnique_page (h : xs.Nodup) {size : Nat} (hsize : 0 < size) {x : α} (hx : x ∈ xs) :
    ∃! k, x ∈ (xs.drop (k * size)).take size := by
  have hall : xs.length ≤ xs.length * size := Nat.le_mul_of_pos_right _ hsize
  rw [← List.take_of_length_le hall, ← flatMap_pages] at hx
  obtain ⟨k, -, hk⟩ := List.mem_flatMap.mp hx
  refine ⟨k, hk, fun l hl => ?_⟩
  rcases Nat.lt_trichotomy k l with hkl | hkl | hkl
  · exact absurd hl (disjoint_pages h hkl hk)
  · exact hkl.symm
  · exact absurd hk (disjoint_pages h hkl hl)

end Pages

end Spec

end Query

theorem Service.flaw?_eq_none {q : Query.Spec} :
    Service.flaw? q = none ↔ ∀ c ∈ q.filter, ¬ c.Flawed := by
  simp [Service.flaw?, List.findSome?_eq_none_iff, Query.Criterion.flaw?_eq_none]

namespace Network

variable {n : Nat} {i : Fin n} {net : Network n} {q : Query.Spec}

theorem query_eq (ids : Nat → String) (i : Fin n) (net : Network n) (q : Query.Spec) :
    Service.query (environment ids i) q net =
      .ok (match Service.flaw? q with
        | some flaw => .error (.flawedFilter flaw)
        | none => .ok ((net.site i).store.select q)) net := by
  unfold Service.query
  cases Service.flaw? q <;> rfl

theorem query_refused_iff (ids : Nat → String) :
    (∃ refusal, Service.query (environment ids i) q net = .ok (.error refusal) net ∧
      refusal.reason = .badRequest) ↔ ∃ c ∈ q.filter, c.Flawed := by
  rw [query_eq]
  cases hflaw : Service.flaw? q with
  | none =>
    have hsound := Service.flaw?_eq_none.mp hflaw
    refine ⟨?_, fun ⟨c, hc, hflawed⟩ => absurd hflawed (hsound c hc)⟩
    rintro ⟨refusal, heq, -⟩
    cases heq
  | some flaw =>
    refine ⟨fun _ => ?_, fun _ => ⟨_, rfl, rfl⟩⟩
    by_contra hnone
    have hsound : Service.flaw? q = none :=
      Service.flaw?_eq_none.mpr fun c hc hflawed => hnone ⟨c, hc, hflawed⟩
    cases hflaw.symm.trans hsound

theorem query_window (ids : Nat → String) {filter : List Query.Criterion}
    (hsound : ∀ c ∈ filter, ¬ c.Flawed) (hsize : (net.site i).store.records.length < 2 ^ 64)
    (offset limit : UInt64) :
    Service.query (environment ids i) (.window filter offset limit) net =
      .ok (.ok (((Query.Spec.listing filter (net.site i).store.records).drop offset.toNat).take
        limit.toNat)) net := by
  have hflaw : Service.flaw? (.window filter offset limit) = none :=
    Service.flaw?_eq_none.mpr hsound
  have hfew : (Query.Spec.listing filter (net.site i).store.records).length < 2 ^ 64 :=
    Query.Spec.length_matching_le.trans_lt hsize
  have hselect : (net.site i).store.select (.window filter offset limit) =
      Query.Spec.page offset limit (Query.Spec.listing filter (net.site i).store.records) := by
    simp only [Store.select, Query.Spec.answer, Query.Spec.window, UInt64.ofNat_toNat]
    rfl
  rw [query_eq, hflaw, hselect, Query.Spec.page_eq hfew]

def reorder (net : Network n) (i : Fin n) (order : List Negotiation) : Network n :=
  net.setStore i { (net.site i).store with records := order }

theorem records_reorder (net : Network n) (i : Fin n) (order : List Negotiation) :
    ((net.reorder i order).site i).store.records = order := by
  simp [reorder, setStore, site_setSite]

structure Paginates (ids : Nat → String) (i : Fin n) (net : Network n)
    (filter : List Query.Criterion) (found : List Negotiation) (size : UInt64)
    (pages : Nat → List Negotiation) : Prop where
  answered : ∀ k, k * size.toNat < 2 ^ 64 →
    Service.query (environment ids i) (.window filter (.ofNat (k * size.toNat)) size) net =
      .ok (.ok (pages k)) net
  disjoint : ∀ k l, k ≠ l → (pages k).Disjoint (pages l)
  unique : ∀ v ∈ found, ∃! k, v ∈ pages k
  complete : ∀ count, found.length ≤ count * size.toNat →
    (List.range count).flatMap pages = found

/-- The records that meet all criteria stand in one sequence, which the order of the records in the
store does not enter. An answer is the part of it behind the offset, up to the limit. -/
structure Lists (ids : Nat → String) (i : Fin n) (net : Network n) (filter : List Query.Criterion)
    (found : List Negotiation) : Prop where
  matching : found.Perm ((net.site i).store.records.filter fun v =>
    filter.all fun c => c.holds (.ofNegotiation v))
  sorted : found.Pairwise Negotiation.Ahead
  answered : ∀ order, order.Perm (net.site i).store.records → ∀ offset limit : UInt64,
    Service.query (environment ids i) (.window filter offset limit) (net.reorder i order) =
      .ok (.ok ((found.drop offset.toNat).take limit.toNat)) (net.reorder i order)
  whole : Service.query (environment ids i) (.window filter 0 (-1)) net = .ok (.ok found) net
  pages : ∀ size : UInt64, 0 < size → ∃ pages, Paginates ids i net filter found size pages

structure Paged (ids : Nat → String) (i : Fin n) (net : Network n)
    (filter : List Query.Criterion) : Prop where
  refused_iff : ∀ offset limit : UInt64,
    (∃ refusal, Service.query (environment ids i) (.window filter offset limit) net =
      .ok (.error refusal) net ∧ refusal.reason = .badRequest) ↔ ∃ c ∈ filter, c.Flawed
  listed : (∀ c ∈ filter, ¬ c.Flawed) → ∃ found, Lists ids i net filter found

/-- Whatever is stored, asked for and counted in 64-bit words, a query is refused as a bad request
if one of its criteria cannot be carried out, and else answered with a page of what is found. -/
theorem query_paged (ids : Nat → String) (i : Fin n) (net : Network n)
    (filter : List Query.Criterion) (htidy : (net.site i).store.Tidy)
    (hsize : (net.site i).store.records.length < 2 ^ 64) : Paged ids i net filter := by
  refine ⟨fun _ _ => query_refused_iff ids, fun hsound => ?_⟩
  let records := (net.site i).store.records
  let found := Query.Spec.listing filter records
  have hahead : found.Pairwise Negotiation.Ahead := Query.Spec.matching_ahead htidy
  have hnodup : found.Nodup := hahead.imp fun {a b} hab heq => (heq ▸ hab).asymm (heq ▸ hab)
  have hfew : found.length < 2 ^ 64 := Query.Spec.length_matching_le.trans_lt hsize
  refine ⟨found, Query.Spec.matching_perm _ _, hahead, ?_, ?_, ?_⟩
  · intro order horder offset limit
    have hrecords := records_reorder net i order
    have hlisting : Query.Spec.listing filter order = found :=
      Query.Spec.matching_congr htidy horder
    have hsize' : ((net.reorder i order).site i).store.records.length < 2 ^ 64 := by
      rw [hrecords, horder.length_eq]
      exact hsize
    rw [query_window ids hsound hsize', hrecords, hlisting]
  · have hlast : found.length ≤ (-1 : UInt64).toNat := Nat.le_of_lt_succ hfew
    rw [query_window ids hsound hsize, UInt64.toNat_zero, List.drop_zero,
      List.take_of_length_le hlast]
  · intro size hpos
    refine ⟨fun k => (found.drop (k * size.toNat)).take size.toNat, ?_, ?_, fun v hv =>
      Query.Spec.existsUnique_page hnodup (UInt64.lt_iff_toNat_lt.mp hpos) hv, ?_⟩
    · intro k hk
      rw [query_window ids hsound hsize, UInt64.toNat_ofNat_of_lt' hk]
    · intro k l hkl
      rcases Nat.lt_or_gt_of_ne hkl with h | h
      · exact Query.Spec.disjoint_pages hnodup h
      · exact (Query.Spec.disjoint_pages hnodup h).symm
    · intro count hcount
      rw [Query.Spec.flatMap_pages, List.take_of_length_le hcount]

def entry (id partner : String) (createdAt : Int) : Negotiation :=
  { id, counterPartyId := partner, createdAt }

def ledger : Network 1 where
  sites := #v[{ store := { records :=
    [entry "n-4" "p" 5, entry "n-3" "p" 5, entry "n-2" "q" 5, entry "n-1" "p" 7] } }]

def byPartner : List Query.Criterion := [{ path := "counterPartyId", operand := "p" }]

theorem query_paged_of_tied :
    (ledger.site 0).store.Tidy ∧ (ledger.site 0).store.records.length < 2 ^ 64 ∧
      Service.query (environment (fun _ => "id") 0) (.window byPartner 1 (-1))
          (ledger.reorder 0 (ledger.site 0).store.records.reverse) =
        .ok (.ok [entry "n-4" "p" 5, entry "n-1" "p" 7])
          (ledger.reorder 0 (ledger.site 0).store.records.reverse) := by
  have htidy : (ledger.site 0).store.Tidy := by
    unfold Store.Tidy
    decide
  have hsize : (ledger.site 0).store.records.length < 2 ^ 64 := by decide
  have hsound : ∀ c ∈ byPartner, ¬ c.Flawed := by
    simp only [← Query.Criterion.flaw?_eq_none]
    decide +kernel
  obtain ⟨found, hlists⟩ :=
    (query_paged (fun _ => "id") 0 ledger byPartner htidy hsize).listed hsound
  have hfilter : ((ledger.site 0).store.records.filter fun v =>
      byPartner.all fun c => c.holds (.ofNegotiation v)) =
        [entry "n-4" "p" 5, entry "n-3" "p" 5, entry "n-1" "p" 7] := by decide +kernel
  have hsorted : [entry "n-3" "p" 5, entry "n-4" "p" 5, entry "n-1" "p" 7].Pairwise
      Negotiation.Ahead := by
    unfold Negotiation.Ahead
    decide
  have hfound : found = [entry "n-3" "p" 5, entry "n-4" "p" 5, entry "n-1" "p" 7] :=
    (hlists.matching.trans (hfilter ▸ List.Perm.swap _ _ _)).eq_of_pairwise
      (fun a b _ _ hab hba => absurd hba hab.asymm) hlists.sorted hsorted
  have h := hlists.answered (ledger.site 0).store.records.reverse (List.reverse_perm _) 1 (-1)
  rw [hfound] at h
  exact ⟨htidy, hsize, h⟩

end Network

end ContractNegotiation
