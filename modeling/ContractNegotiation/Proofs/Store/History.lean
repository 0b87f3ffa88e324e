import ContractNegotiation.Proofs.Store
import Mathlib.Data.List.Chain
import Mathlib.Data.List.Range
import Mathlib.Logic.Function.Basic
import Mathlib.Logic.Relation

namespace ContractNegotiation

open Relation

structure Draft where
  base : Negotiation
  result : Negotiation

/-- A store, what each client `κ` holds, and, for the record, all versions stored under each id,
oldest first. -/
structure SharedStore (κ : Type) where
  store : Store
  snapshots : κ → List Negotiation := fun _ => []
  drafts : κ → List Draft := fun _ => []
  versions : String → List Negotiation := fun _ => []

namespace SharedStore

variable {κ : Type} {s t : SharedStore κ}

def stored (s : SharedStore κ) (w : Negotiation) (store : Store) : SharedStore κ :=
  { s with store, versions := Function.update s.versions w.id (s.versions w.id ++ [w]) }

def start (leaseDuration : Int) : SharedStore κ := { store := { leaseDuration } }

def Succeeds (v w : Negotiation) : Prop :=
  ∃ event agreementId peer, v.Follows event agreementId peer w

structure Sound (s : SharedStore κ) : Prop where
  tidy : s.store.Tidy
  last : ∀ id, s.store.find? id = (s.versions id).getLast?
  ids : ∀ id, ∀ v ∈ s.versions id, v.id = id
  numbered : ∀ id, (s.versions id).map Negotiation.version = List.range (s.versions id).length
  chain : ∀ id, (s.versions id).IsChain Succeeds
  snapshots : ∀ k, ∀ n ∈ s.snapshots k, n ∈ s.versions n.id
  drafts : ∀ k, ∀ d ∈ s.drafts k, d.base ∈ s.versions d.result.id ∧
    d.result.stateCount = d.base.stateCount ∧
    Succeeds d.base { d.result with stateCount := d.base.stateCount + 1 }

theorem sound_start (leaseDuration : Int) : (start leaseDuration : SharedStore κ).Sound where
  tidy := List.nodup_nil
  last _ := rfl
  ids _ _ h := by cases h
  numbered _ := rfl
  chain _ := .nil
  snapshots _ _ h := by cases h
  drafts _ _ h := by cases h

theorem Sound.nodup (hs : s.Sound) (id : String) :
    ((s.versions id).map Negotiation.stateCount).Nodup := by
  have hv : ((s.versions id).map Negotiation.version).Nodup := by
    rw [hs.numbered]
    exact List.nodup_range
  have he : (s.versions id).map Negotiation.version =
      ((s.versions id).map Negotiation.stateCount).map fun c => (c - 1).toNat := by
    simp only [List.map_map]
    rfl
  exact List.Nodup.of_map _ (he ▸ hv)

theorem Sound.mem_versions (hs : s.Sound) {n : Negotiation} (h : n ∈ s.store.records) :
    n ∈ s.versions n.id := by
  have hf := hs.last n.id
  rw [hs.tidy.find?_of_mem h] at hf
  exact List.mem_of_getLast? hf.symm

theorem Sound.setStore (hs : s.Sound) {store : Store} (h : store.records = s.store.records) :
    { s with store }.Sound where
  tidy := by simpa only [Store.Tidy, h] using hs.tidy
  last id := by simpa only [Store.find?, h] using hs.last id
  ids := hs.ids
  numbered := hs.numbered
  chain := hs.chain
  snapshots := hs.snapshots
  drafts := hs.drafts

theorem Sound.stored (hs : s.Sound) {w : Negotiation} {store : Store} (htidy : store.Tidy)
    (hfind : ∀ id, store.find? id = if id = w.id then some w else s.store.find? id)
    (hnumber : w.version = (s.versions w.id).length)
    (hchain : ∀ v ∈ (s.versions w.id).getLast?, Succeeds v w) : (s.stored w store).Sound := by
  have hsub (id : String) : s.versions id ⊆ (s.stored w store).versions id := by
    by_cases hi : id = w.id
    · subst hi
      simp [SharedStore.stored]
    · simp [SharedStore.stored, Function.update_of_ne hi]
  constructor
  · exact htidy
  · intro id
    by_cases hi : id = w.id
    · subst hi
      simp [SharedStore.stored, hfind]
    · simp [SharedStore.stored, hfind, hi, hs.last]
  · intro id v hv
    by_cases hi : id = w.id
    · subst hi
      simp only [SharedStore.stored, Function.update_self, List.mem_append,
        List.mem_singleton] at hv
      rcases hv with hv | rfl
      · exact hs.ids _ v hv
      · rfl
    · simp only [SharedStore.stored, Function.update_of_ne hi] at hv
      exact hs.ids id v hv
  · intro id
    by_cases hi : id = w.id
    · subst hi
      simp [SharedStore.stored, hs.numbered, List.range_succ, hnumber]
    · simpa [SharedStore.stored, Function.update_of_ne hi] using hs.numbered id
  · intro id
    by_cases hi : id = w.id
    · subst hi
      simp only [SharedStore.stored, Function.update_self]
      refine List.IsChain.append (hs.chain _) (List.isChain_singleton w) ?_
      intro v hv w' hw'
      simp only [List.head?_cons, Option.mem_some] at hw'
      exact hw' ▸ hchain v hv
    · simpa [SharedStore.stored, Function.update_of_ne hi] using hs.chain id
  · exact fun k n hn => hsub _ (hs.snapshots k n hn)
  · intro k d hd
    obtain ⟨hbase, hrest⟩ := hs.drafts k d hd
    exact ⟨hsub _ hbase, hrest⟩

theorem Sound.length_versions (hs : s.Sound) {id : String} {v : Negotiation}
    (hv : s.store.find? id = some v) : (s.versions id).length = v.version + 1 := by
  have hlast : ((s.versions id).map Negotiation.version).getLast? = some v.version := by
    rw [List.getLast?_map, ← hs.last, hv, Option.map_some]
  rw [hs.numbered, List.getLast?_range] at hlast
  split at hlast
  · cases hlast
  · simp only [Option.some.injEq] at hlast
    omega

theorem Sound.base_of_saved (hs : s.Sound) {k : κ} {d : Draft} {saved : Negotiation}
    {store : Store} (hd : d ∈ s.drafts k) (h : Store.Saved s.store d.result saved store) :
    s.store.find? d.result.id = some d.base ∧ d.base.stateCount ≠ 0 ∧
      saved = { d.result with stateCount := d.base.stateCount + 1 } := by
  obtain ⟨hbase, hcount, _⟩ := hs.drafts k d hd
  have hlast := hs.last d.result.id
  cases h with
  | first _ _ hf =>
    rw [hf, eq_comm, List.getLast?_eq_none_iff] at hlast
    rw [hlast] at hbase
    cases hbase
  | next v _ hc hf hv =>
    rw [hf] at hlast
    have he : d.base = v :=
      List.inj_on_of_nodup_map (hs.nodup _) hbase (List.mem_of_getLast? hlast.symm)
        (hcount.symm.trans hv.symm)
    exact ⟨he ▸ hf, hcount ▸ hc, by rw [hcount]⟩

section Clients

variable [DecidableEq κ]

def hand (s : SharedStore κ) (k : κ) (ns : List Negotiation) : SharedStore κ :=
  { s with snapshots := Function.update s.snapshots k (ns ++ s.snapshots k) }

def draft (s : SharedStore κ) (k : κ) (d : Draft) : SharedStore κ :=
  { s with drafts := Function.update s.drafts k (d :: s.drafts k) }

inductive Step : SharedStore κ → SharedStore κ → Prop where
  | insert {s : SharedStore κ} (n first : Negotiation) (holder : String) (now : Instant)
      (store : Store) :
      n.stateCount = 0 → s.store.save n holder now = .ok (first, store) →
      Step s (s.stored first store)
  | find {s : SharedStore κ} (k : κ) (id : String) (n : Negotiation) :
      s.store.find? id = some n → Step s (s.hand k [n])
  | findByCorrelation {s : SharedStore κ} (k : κ) (correlationId : String) (n : Negotiation) :
      s.store.findByCorrelation? correlationId = some n → Step s (s.hand k [n])
  | lease {s : SharedStore κ} (k : κ) (code : Int) (role : Option Role) (batch : Nat)
      (holder : String) (now : Instant) (ns : List Negotiation) (store : Store) :
      s.store.leaseNext code role batch holder now = (ns, store) →
      Step s { s.hand k ns with store }
  | breakLease {s : SharedStore κ} (id holder : String) (now : Instant) (store : Store) :
      s.store.breakLease id holder now = .ok store → Step s { s with store }
  | transition {s : SharedStore κ} (k : κ) (n next : Negotiation) (event : Event) (now : Instant)
      (agreementId peer : String) (message : Option RemoteMessage) :
      n ∈ s.snapshots k → n.transition event now agreementId = .applied next message →
      Step s (s.draft k ⟨n, next.correlate peer⟩)
  | save {s : SharedStore κ} (k : κ) (d : Draft) (saved : Negotiation) (holder : String)
      (now : Instant) (store : Store) :
      d ∈ s.drafts k → s.store.save d.result holder now = .ok (saved, store) →
      Step s (s.stored saved store)

theorem Sound.hand (hs : s.Sound) (k : κ) {ns : List Negotiation}
    (h : ∀ n ∈ ns, n ∈ s.versions n.id) : (s.hand k ns).Sound where
  tidy := hs.tidy
  last := hs.last
  ids := hs.ids
  numbered := hs.numbered
  chain := hs.chain
  snapshots k' n hn := by
    by_cases hk : k' = k
    · subst hk
      simp only [SharedStore.hand, Function.update_self, List.mem_append] at hn
      rcases hn with hn | hn
      · exact h n hn
      · exact hs.snapshots _ n hn
    · simp only [SharedStore.hand, Function.update_of_ne hk] at hn
      exact hs.snapshots k' n hn
  drafts := hs.drafts

theorem Sound.draft (hs : s.Sound) {k : κ} {n next : Negotiation} {event : Event} {now : Instant}
    {agreementId peer : String} {message : Option RemoteMessage} (hn : n ∈ s.snapshots k)
    (ht : n.transition event now agreementId = .applied next message) :
    (s.draft k ⟨n, next.correlate peer⟩).Sound where
  tidy := hs.tidy
  last := hs.last
  ids := hs.ids
  numbered := hs.numbered
  chain := hs.chain
  snapshots := hs.snapshots
  drafts k' d hd := by
    have hc := (Negotiation.row_of_transition ht).continues
    have hnew : n ∈ s.versions (next.correlate peer).id ∧
        (next.correlate peer).stateCount = n.stateCount := by
      simp only [Negotiation.correlate_eq, hc.id, hc.stateCount, and_true]
      exact hs.snapshots k n hn
    by_cases hk : k' = k
    · subst hk
      simp only [SharedStore.draft, Function.update_self, List.mem_cons] at hd
      rcases hd with rfl | hd
      · exact ⟨hnew.1, hnew.2, event, agreementId, peer, now, next, message, ht, rfl⟩
      · exact hs.drafts _ d hd
    · simp only [SharedStore.draft, Function.update_of_ne hk] at hd
      exact hs.drafts k' d hd

theorem Sound.step (hs : s.Sound) (h : Step s t) : t.Sound := by
  cases h with
  | insert n first holder now store hn h =>
    have h := Store.saved_of_save h
    refine hs.stored (h.tidy hs.tidy) h.find? ?_ ?_
    · cases h with
      | first _ _ hf =>
        have hnil : s.versions n.id = [] := by
          simpa [hs.last] using hf
        simp [hnil, Negotiation.version]
      | next _ _ hc => exact absurd hn hc
    · cases h with
      | first _ _ hf =>
        have hnil : s.versions n.id = [] := by
          simpa [hs.last] using hf
        simp [hnil]
      | next _ _ hc => exact absurd hn hc
  | find k id n h =>
    refine hs.hand k ?_
    simpa using hs.mem_versions (Store.mem_of_find? h)
  | findByCorrelation k c n h =>
    refine hs.hand k ?_
    simpa using hs.mem_versions (Store.correlationId_of_findByCorrelation? h).1
  | lease k code role batch holder now ns store h =>
    have hl := Store.leases_of_leaseNext h
    exact (hs.hand k fun n hn => hs.mem_versions (hl.stored n hn)).setStore hl.records
  | breakLease id holder now store h =>
    refine hs.setStore ?_
    rcases Store.breakLease_cases h with rfl | rfl <;> rfl
  | transition k n next event now agreementId peer message hn ht => exact hs.draft hn ht
  | save k d saved holder now store hd h =>
    have h := Store.saved_of_save h
    obtain ⟨hbase, hc, hsaved⟩ := hs.base_of_saved hd h
    obtain ⟨_, _, hfollows⟩ := hs.drafts k d hd
    refine hs.stored (h.tidy hs.tidy) h.find? ?_ ?_
    · rw [h.id, hs.length_versions hbase]
      exact Negotiation.version_succ hc (congrArg Negotiation.stateCount hsaved)
    · intro v hv
      rw [h.id, ← hs.last, hbase] at hv
      cases hv
      exact hsaved ▸ hfollows

theorem sound_of_steps {leaseDuration : Int} (h : ReflTransGen Step (start leaseDuration) s) :
    s.Sound := by
  induction h with
  | refl => exact sound_start leaseDuration
  | tail _ h ih => exact ih.step h

/-- Whatever the clients do and however their steps interleave, the versions stored under an id are
a run of the state machine that ends in the stored record: each one follows from the one before it
by a transition, and its state count is one higher. A draft is saved only while its base is still
the stored record. -/
theorem versions_follow_machine {leaseDuration : Int}
    (h : ReflTransGen Step (start leaseDuration) s) (id : String) :
    (∀ first ∈ (s.versions id).head?, first.stateCount = 1) ∧
      (s.versions id).IsChain
        (fun v w => ∃ event agreementId peer, v.Follows event agreementId peer w) ∧
      ((s.versions id).map Negotiation.stateCount).Nodup ∧
      (∀ v ∈ s.versions id, v.id = id) ∧
      s.store.find? id = (s.versions id).getLast? ∧
      ∀ k, ∀ d ∈ s.drafts k, d.result.id = id → ∀ holder now saved store,
        s.store.save d.result holder now = .ok (saved, store) →
        s.store.find? id = some d.base := by
  have hs := sound_of_steps h
  refine ⟨?_, hs.chain id, hs.nodup id, hs.ids id, hs.last id, ?_⟩
  · intro first hfirst
    have hnumbered := congrArg List.head? (hs.numbered id)
    rw [List.head?_map, Option.mem_def.mp hfirst, List.head?_range] at hnumbered
    split at hnumbered
    · cases hnumbered
    · simp only [Option.map_some, Option.some.injEq, Negotiation.version] at hnumbered
      have hc : first.stateCount - 1 = 0 := UInt64.toNat_inj.mp hnumbered
      grind
  · rintro k d hd rfl holder now saved store h
    exact (hs.base_of_saved hd (Store.saved_of_save h)).1

def contested : Negotiation where
  id := "n"
  role := some .consumer
  stateCode := State.requesting.code
  stateCount := 1
  offers := [{}]

theorem versions_of_race : ∃ s : SharedStore Bool, ReflTransGen Step (start 60000) s ∧
    (s.versions "n").map Negotiation.state = [.requesting, .cancelled] ∧
    (s.drafts true).length = 1 ∧ (s.drafts false).length = 1 ∧
    (s.versions "n").IsChain
      fun v w => ∃ event agreementId peer, v.Follows event agreementId peer w := by
  have h : ReflTransGen Step (start 60000 : SharedStore Bool) _ :=
    .single (.insert { contested with stateCount := 0 } contested "" default _ rfl rfl)
  have h := h.tail (.find true "n" contested rfl)
  have h := h.tail (.find false "n" contested rfl)
  have h := h.tail (.transition true contested _ .cancel default "" "" _ (.head _) rfl)
  have h := h.tail
    (.transition false contested _ (.process "p" "c") default "" "peer" _ (.head _) rfl)
  have h := h.tail (.save true _ _ "" default _ (.head _) rfl)
  exact ⟨_, h, rfl, rfl, rfl, (versions_follow_machine h "n").2.1⟩

end Clients

end SharedStore

end ContractNegotiation
