import ContractNegotiation.Manager
import ContractNegotiation.Proofs.Retry
import ContractNegotiation.Proofs.Store
import Mathlib.Logic.Function.Basic

namespace ContractNegotiation

structure Sending where
  version : Negotiation
  now : Instant
  answer : DispatchResult

def Sending.Failed (s : Sending) : Prop := ∃ text, s.answer = .transient text

/-- What concerns one record of a manager: the stored version, the failed attempts, and for each
state count the messages sent from that version and what was written over it, and for whom. -/
structure File where
  record : Option Negotiation
  entry : Option RetryEntry
  sends : UInt64 → List Sending
  successors : UInt64 → List (String × Negotiation)

def Backoff.pause (b : Backoff) (k : Nat) : Int :=
  min (b.baseDelay * 2 ^ k) (max b.baseDelay b.maxDelay)

def Spaced (b : Backoff) (sends : List Sending) : Prop :=
  ∀ k s s', sends[k]? = some s → sends[k + 1]? = some s' →
    s.Failed ∧ s.now.later (b.pause k) ≤ s'.now

def GivenUp (b : Backoff) (sends : List Sending) : Prop :=
  (∃ s ∈ sends, ∃ text, s.answer = .fatal text) ∨ ∃ s, sends[b.limit - 1]? = some s ∧ s.Failed

structure Version (m : Manager) (sends : List Sending) (successors : List (String × Negotiation)) :
    Prop where
  same : ∀ s ∈ sends, ∀ s' ∈ sends, s.version = s'.version
  bounded : sends.length ≤ m.options.backoff.limit
  spaced : Spaced m.options.backoff sends
  patient : ∀ s, sends.getLast? = some s → s.Failed → sends.length < m.options.backoff.limit →
    ∀ w, (m.leaseHolder, w) ∉ successors
  failed : (∃ w, (m.leaseHolder, w) ∈ successors ∧ w.state = .error) ↔
    GivenUp m.options.backoff sends

structure Current (m : Manager) (v : Negotiation) (entry : Option RetryEntry)
    (sends : List Sending) : Prop where
  version : ∀ s ∈ sends, s.version = v
  failed : ∀ s ∈ sends, s.Failed
  few : sends.length < m.options.backoff.limit
  spaced : Spaced m.options.backoff sends
  count : RetryEntry.count entry = sends.length
  next : ∀ s e, sends.getLast? = some s → entry = some e →
    s.now.later (m.options.backoff.pause (sends.length - 1)) ≤ e.nextAttemptAt
  speaks : sends ≠ [] → v.state.speaks = true

namespace File

structure Disciplined (m : Manager) (f : File) : Prop where
  versions : ∀ c ≠ 0, Version m (f.sends c) (f.successors c)
  unknown : f.record = none → f.entry = none ∧ ∀ c ≠ 0, f.sends c = [] ∧ f.successors c = []
  current : ∀ v, f.record = some v → v.stateCount ≠ 0 →
    f.successors v.stateCount = [] ∧ Current m v f.entry (f.sends v.stateCount)
  later : ∀ v, f.record = some v → ∀ c ≠ 0, v.version < (c - 1).toNat →
    f.sends c = [] ∧ f.successors c = []
  settled : ∀ v, f.record = some v → ∀ c ≠ 0, (c - 1).toNat < v.version →
    f.successors c = [] → f.sends c = []

end File

variable {b : Backoff} {m : Manager} {f : File} {v w : Negotiation} {entry : Option RetryEntry}
  {sends : List Sending} {s : Sending} {holder : String}

theorem Backoff.limit_pos (b : Backoff) : 0 < b.limit := by
  unfold limit
  omega

theorem spaced_nil : Spaced b [] := by
  intro k s s' h
  simp at h

theorem Spaced.snoc (h : Spaced b sends) (hfailed : ∀ s ∈ sends, s.Failed)
    (hlast : ∀ s', sends.getLast? = some s' → s'.now.later (b.pause (sends.length - 1)) ≤ s.now) :
    Spaced b (sends ++ [s]) := by
  intro k s₁ s₂ h₁ h₂
  by_cases hk : k + 1 < sends.length
  · rw [List.getElem?_append_left (by omega)] at h₁ h₂
    exact h k s₁ s₂ h₁ h₂
  · have hk' : k + 1 < (sends ++ [s]).length := (List.getElem?_eq_some_iff.mp h₂).1
    rw [List.length_append, List.length_singleton] at hk'
    obtain rfl : k = sends.length - 1 := by omega
    rw [List.getElem?_append_left (by omega)] at h₁
    rw [List.getElem?_append_right (by omega)] at h₂
    have hs : s = s₂ := by
      have hzero : sends.length - 1 + 1 - sends.length = 0 := by omega
      simpa [hzero] using h₂
    rw [← List.getLast?_eq_getElem?] at h₁
    exact ⟨hfailed s₁ (List.mem_of_getLast? h₁), hs ▸ hlast s₁ h₁⟩

theorem Sending.Failed.not_fatal (h : s.Failed) : ¬ ∃ text, s.answer = .fatal text := by
  obtain ⟨text, h⟩ := h
  simp [h]

theorem current_nil : Current m v none [] where
  version _ h := by cases h
  failed _ h := by cases h
  few := Backoff.limit_pos _
  spaced := spaced_nil
  count := rfl
  next _ _ h := by cases h
  speaks h := absurd rfl h

namespace Current

theorem not_givenUp (h : Current m v entry sends) : ¬ GivenUp m.options.backoff sends := by
  rintro (⟨s, hs, hfatal⟩ | ⟨s, hs, -⟩)
  · exact (h.failed s hs).not_fatal hfatal
  · have hlt := (List.getElem?_eq_some_iff.mp hs).1
    have := h.few
    omega

theorem open_version (h : Current m v entry sends) : Version m sends [] where
  same s hs s' hs' := (h.version s hs).trans (h.version s' hs').symm
  bounded := Nat.le_of_lt h.few
  spaced := h.spaced
  patient _ _ _ _ w := by simp
  failed := by
    constructor
    · rintro ⟨w, hw, -⟩
      cases hw
    · exact fun hworn => absurd hworn h.not_givenUp

theorem replaced (h : Current m v entry sends) (hw : w.state ≠ .error)
    (hholder : holder = m.leaseHolder → sends = []) : Version m sends [(holder, w)] where
  same s hs s' hs' := (h.version s hs).trans (h.version s' hs').symm
  bounded := Nat.le_of_lt h.few
  spaced := h.spaced
  patient s hs _ _ u hu := by
    obtain ⟨rfl, -⟩ := Prod.mk.inj (List.mem_singleton.mp hu)
    rw [hholder rfl] at hs
    cases hs
  failed := by
    constructor
    · rintro ⟨u, hu, herror⟩
      obtain ⟨-, rfl⟩ := Prod.mk.inj (List.mem_singleton.mp hu)
      exact absurd herror hw
    · exact fun hworn => absurd hworn h.not_givenUp

theorem spaced_snoc (h : Current m v entry sends)
    (hdue : ∀ e, entry = some e → e.nextAttemptAt ≤ s.now) :
    Spaced m.options.backoff (sends ++ [s]) := by
  refine h.spaced.snoc h.failed fun s' hs' => ?_
  cases entry with
  | none =>
    have hcount := h.count
    rw [RetryEntry.count, eq_comm, List.length_eq_zero_iff] at hcount
    rw [hcount] at hs'
    cases hs'
  | some e =>
    -- The entry was made by the last failure and asks for the pause after it.
    have hnext := h.next s' e hs' rfl
    have hdue := hdue e rfl
    simp only [Instant.le_def] at hnext hdue ⊢
    omega

theorem same_snoc (h : Current m v entry sends) (hs : s.version = v) :
    ∀ s₁ ∈ sends ++ [s], s₁.version = v := by
  intro s₁ hs₁
  rcases List.mem_append.mp hs₁ with hs₁ | hs₁
  · exact h.version s₁ hs₁
  · rw [List.mem_singleton.mp hs₁, hs]

theorem getElem?_snoc (h : Current m v entry sends) :
    (∃ s₁, (sends ++ [s])[m.options.backoff.limit - 1]? = some s₁ ∧ s₁.Failed) ↔
      sends.length + 1 = m.options.backoff.limit ∧ s.Failed := by
  have hfew := h.few
  by_cases hlast : sends.length + 1 = m.options.backoff.limit
  · have hindex : m.options.backoff.limit - 1 = sends.length := by omega
    simp [hindex, hlast, List.getElem?_concat_length]
  · have hnone : (sends ++ [s])[m.options.backoff.limit - 1]? = none := by
      rw [List.getElem?_eq_none_iff, List.length_append, List.length_singleton]
      omega
    simp [hnone, hlast]

theorem concluded (h : Current m v entry sends) (hs : s.version = v)
    (hdue : ∀ e, entry = some e → e.nextAttemptAt ≤ s.now)
    (hpatient : s.Failed → sends.length + 1 = m.options.backoff.limit)
    (hw : w.state = .error ↔ s.Failed ∨ ∃ text, s.answer = .fatal text) :
    Version m (sends ++ [s]) [(m.leaseHolder, w)] where
  same s₁ hs₁ s₂ hs₂ := (h.same_snoc hs s₁ hs₁).trans (h.same_snoc hs s₂ hs₂).symm
  bounded := by
    rw [List.length_append, List.length_singleton]
    exact h.few
  spaced := h.spaced_snoc hdue
  patient s₁ hs₁ hfailed hlt := by
    obtain rfl : s = s₁ := by simpa using hs₁
    rw [List.length_append, List.length_singleton, hpatient hfailed] at hlt
    exact absurd hlt (Nat.lt_irrefl _)
  failed := by
    have herror : (∃ u, (m.leaseHolder, u) ∈ [(m.leaseHolder, w)] ∧ u.state = .error) ↔
        w.state = .error := by simp
    rw [herror, hw, GivenUp, h.getElem?_snoc]
    constructor
    · rintro (hfailed | hfatal)
      · exact .inr ⟨hpatient hfailed, hfailed⟩
      · exact .inl ⟨s, by simp, hfatal⟩
    · rintro (⟨s₁, hs₁, hfatal⟩ | ⟨-, hfailed⟩)
      · rcases List.mem_append.mp hs₁ with hs₁ | hs₁
        · exact absurd hfatal (h.failed s₁ hs₁).not_fatal
        · exact .inr (List.mem_singleton.mp hs₁ ▸ hfatal)
      · exact .inl hfailed

theorem waits (h : Current m v entry sends) (hs : s.version = v) (hfailed : s.Failed)
    (hdue : ∀ e, entry = some e → e.nextAttemptAt ≤ s.now)
    (hfew : (sends.length + 1 : Nat) < m.options.maxRetries) (hspeaks : v.state.speaks = true)
    {e : RetryEntry} (hattempts : e.attempts = sends.length + 1)
    (hnext : s.now.later (m.options.backoff.pause sends.length) ≤ e.nextAttemptAt) :
    Current m v (some e) (sends ++ [s]) where
  version := h.same_snoc hs
  failed s₁ hs₁ := by
    rcases List.mem_append.mp hs₁ with hs₁ | hs₁
    · exact h.failed s₁ hs₁
    · exact List.mem_singleton.mp hs₁ ▸ hfailed
  few := by
    rw [List.length_append, List.length_singleton, Backoff.limit, Options.backoff]
    dsimp only
    omega
  spaced := h.spaced_snoc hdue
  count := by
    rw [RetryEntry.count, hattempts, List.length_append, List.length_singleton]
  next s₁ e₁ hs₁ he₁ := by
    obtain rfl : s = s₁ := by simpa using hs₁
    obtain rfl := Option.some.inj he₁
    rwa [List.length_append, List.length_singleton, Nat.add_sub_cancel]
  speaks _ := hspeaks

end Current

namespace File.Disciplined

theorem eq_of_version {c : UInt64} (h : (c - 1).toNat = v.version) : c = v.stateCount :=
  Negotiation.stateCount_eq_of_version (v := { v with stateCount := c }) h

theorem close (h : f.Disciplined m) (hv : f.record = some v) (hc : v.stateCount ≠ 0)
    (hw : w.stateCount = v.stateCount + 1) {new : List Sending}
    (hversion : Version m (f.sends v.stateCount ++ new) [(holder, w)]) :
    File.Disciplined m {
      record := some w
      entry := none
      sends := Function.update f.sends v.stateCount (f.sends v.stateCount ++ new)
      successors := Function.update f.successors v.stateCount
        (f.successors v.stateCount ++ [(holder, w)]) } := by
  have hsucc : w.version = v.version + 1 := Negotiation.version_succ hc hw
  have hnone := (h.current v hv hc).1
  have hne {c : UInt64} (hlt : v.version < (c - 1).toNat) : c ≠ v.stateCount := by
    rintro rfl
    exact Nat.lt_irrefl _ hlt
  constructor
  case versions =>
    intro c hc
    by_cases hcv : c = v.stateCount
    · subst hcv
      simpa only [Function.update_self, hnone, List.nil_append] using hversion
    · simpa only [Function.update_of_ne hcv] using h.versions c hc
  case unknown =>
    intro hnone
    cases hnone
  case current =>
    rintro _ ⟨⟩ hcw
    have hlater : v.version < w.version := by omega
    obtain ⟨hsends, hsuccessors⟩ := h.later v hv w.stateCount hcw hlater
    simp only [Function.update_of_ne (hne hlater), hsends, hsuccessors]
    exact ⟨trivial, current_nil⟩
  case later =>
    rintro _ ⟨⟩ c hc hlt
    have hlater : v.version < (c - 1).toNat := by omega
    simpa only [Function.update_of_ne (hne hlater)] using h.later v hv c hc hlater
  case settled =>
    rintro _ ⟨⟩ c hc hlt hempty
    by_cases hcv : c = v.stateCount
    · subst hcv
      simp at hempty
    · have hearlier : (c - 1).toNat < v.version := by
        have hne : (c - 1).toNat ≠ v.version := fun he => hcv (eq_of_version he)
        omega
      simp only [Function.update_of_ne hcv] at hempty ⊢
      exact h.settled v hv c hc hearlier hempty

theorem replace (h : f.Disciplined m) (hv : f.record = some v) (hc : v.stateCount ≠ 0)
    (hw : w.stateCount = v.stateCount + 1)
    (hversion : Version m (f.sends v.stateCount) [(holder, w)]) :
    File.Disciplined m { f with
      record := some w
      entry := none
      successors := Function.update f.successors v.stateCount
        (f.successors v.stateCount ++ [(holder, w)]) } := by
  rw [← List.append_nil (f.sends v.stateCount)] at hversion
  have hclose := h.close hv hc hw hversion
  rwa [List.append_nil, Function.update_eq_self] at hclose

theorem stay (h : f.Disciplined m) (hv : f.record = some v)
    (hcurrent : v.stateCount ≠ 0 → Current m v entry sends) :
    File.Disciplined m { f with
      entry
      sends := Function.update f.sends v.stateCount sends } := by
  have hother {c : UInt64} (hne : (c - 1).toNat ≠ v.version) :
      Function.update f.sends v.stateCount sends c = f.sends c := by
    refine Function.update_of_ne ?_ _ _
    rintro rfl
    exact hne rfl
  constructor
  case versions =>
    intro c hc
    by_cases hcv : c = v.stateCount
    · subst hcv
      simpa only [Function.update_self, (h.current v hv hc).1] using (hcurrent hc).open_version
    · simpa only [Function.update_of_ne hcv] using h.versions c hc
  case unknown =>
    intro hrecord
    rw [hv] at hrecord
    cases hrecord
  case current =>
    intro u hu hcu
    obtain rfl := Option.some.inj (hv.symm.trans hu)
    simpa only [Function.update_self] using And.intro (h.current v hv hcu).1 (hcurrent hcu)
  case later =>
    intro u hu c hc hlt
    obtain rfl := Option.some.inj (hv.symm.trans hu)
    simpa only [hother (Nat.ne_of_gt hlt)] using h.later v hv c hc hlt
  case settled =>
    intro u hu c hc hlt
    obtain rfl := Option.some.inj (hv.symm.trans hu)
    simpa only [hother (Nat.ne_of_lt hlt)] using h.settled v hv c hc hlt

theorem start (h : f.Disciplined m) (hnone : f.record = none) (w : Negotiation)
    (successors : List (String × Negotiation)) : File.Disciplined m { f with
      record := some w
      successors := Function.update f.successors 0 successors } := by
  obtain ⟨hentry, hempty⟩ := h.unknown hnone
  have hsame {c : UInt64} (hc : c ≠ 0) :
      Function.update f.successors 0 successors c = f.successors c := Function.update_of_ne hc _ _
  constructor
  case versions =>
    intro c hc
    simpa only [hsame hc] using h.versions c hc
  case unknown =>
    intro hrecord
    cases hrecord
  case current =>
    rintro _ ⟨⟩ hcw
    simp only [hsame hcw, hempty _ hcw, hentry]
    exact ⟨trivial, current_nil⟩
  case later =>
    rintro _ ⟨⟩ c hc -
    simpa only [hsame hc] using hempty c hc
  case settled =>
    rintro _ ⟨⟩ c hc - -
    exact (hempty c hc).1

theorem stored (h : f.Disciplined m) {c : UInt64} (hc : c ≠ 0) (hs : s ∈ f.sends c)
    (hnone : f.successors c = []) : f.record = some s.version := by
  have hne : f.sends c ≠ [] := List.ne_nil_of_mem hs
  cases hv : f.record with
  | none => exact absurd ((h.unknown hv).2 c hc).1 hne
  | some v =>
    rcases Nat.lt_trichotomy (c - 1).toNat v.version with hlt | heq | hlt
    · exact absurd (h.settled v hv c hc hlt hnone) hne
    · obtain rfl := eq_of_version heq
      rw [(h.current v hv hc).2.version s hs]
    · exact absurd (h.later v hv c hc hlt).1 hne

end File.Disciplined

theorem disciplined_of_empty (h : f.entry = none)
    (hempty : ∀ c, f.sends c = [] ∧ f.successors c = []) :
    f.Disciplined m where
  versions c _ := by
    rw [(hempty c).1, (hempty c).2]
    exact (current_nil (v := default)).open_version
  unknown _ := ⟨h, fun c _ => hempty c⟩
  current v _ _ := by
    rw [(hempty _).1, h]
    exact ⟨(hempty _).2, current_nil⟩
  later _ _ c _ _ := hempty c
  settled _ _ c _ _ _ := (hempty c).1

end ContractNegotiation
