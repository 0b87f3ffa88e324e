import ContractNegotiation.Proofs.Store
import ContractNegotiation.Simulation.Step
import Mathlib.Algebra.Group.Nat.Defs
import Mathlib.Data.List.Induction

namespace ContractNegotiation.Store

open Simulation

structure Call where
  now : Instant
  step : StoreStep
  reply : Reply

namespace Call

def saved? (c : Call) : Option Negotiation :=
  match c.step, c.reply with
  | .save n _, .saved none _ => some n
  | _, _ => none

def Saves (c : Call) (id holder : String) : Prop :=
  ∃ n count, c.step = .save n holder ∧ n.id = id ∧ c.reply = .saved none count

def Breaks (c : Call) (id holder : String) : Prop :=
  c.step = .breakLease id holder ∧ c.reply = .released none

def HandsOut (c : Call) (n : Negotiation) (holder : String) : Prop :=
  ∃ code role batch ns, c.step = .lease code role batch holder ∧ c.reply = .records ns ∧ n ∈ ns

end Call

inductive Leads : Store → List Call → Store → Prop where
  | none (s : Store) : Leads s [] s
  | call {s t u : Store} {calls : List Call} {now : Instant} {step : StoreStep} {reply : Reply} :
      Leads s calls t → step.perform t now = (reply, u) → Leads s (calls ++ [⟨now, step, reply⟩]) u

def winners (calls : List Call) : List Negotiation := calls.filterMap Call.saved?

def saves (id : String) (calls : List Call) : Nat := (winners calls).countP (·.id = id)

inductive Performs (s : Store) (now : Instant) : StoreStep → Reply → Store → Prop where
  | saved {n w : Negotiation} {holder : String} {t : Store} :
      s.save n holder now = .ok (w, t) →
      Performs s now (.save n holder) (.saved none w.stateCount) t
  | refused {n : Negotiation} {holder : String} {e : StoreError} :
      s.save n holder now = .error e →
      Performs s now (.save n holder) (.saved (some e) n.stateCount) s
  | leased {code : Int} {role : Option Role} {batch : Nat} {holder : String}
      {ns : List Negotiation} {t : Store} : s.leaseNext code role batch holder now = (ns, t) →
      Performs s now (.lease code role batch holder) (.records ns) t
  | broken {id holder : String} {t : Store} : s.breakLease id holder now = .ok t →
      Performs s now (.breakLease id holder) (.released none) t
  | held {id holder : String} {e : StoreError} : s.breakLease id holder now = .error e →
      Performs s now (.breakLease id holder) (.released (some e)) s
  | read {step : StoreStep} {reply : Reply} : (∀ n holder, step ≠ .save n holder) →
      (∀ code role batch holder, step ≠ .lease code role batch holder) →
      (∀ id holder, step ≠ .breakLease id holder) → Performs s now step reply s

variable {s t u : Store} {calls : List Call} {c : Call} {id : String} {n v w : Negotiation}

theorem performs_of_perform {now : Instant} {step : StoreStep} {reply : Reply}
    (h : step.perform s now = (reply, t)) : Performs s now step reply t := by
  cases step with
  | save n holder =>
    simp only [StoreStep.perform] at h
    split at h <;> cases h <;> rename_i h
    · exact .saved h
    · exact .refused h
  | lease code role batch holder =>
    cases h
    exact .leased rfl
  | breakLease id holder =>
    simp only [StoreStep.perform] at h
    split at h <;> cases h <;> rename_i h
    · exact .broken h
    · exact .held h
  | _ =>
    cases h
    exact .read (by simp) (by simp) (by simp)

theorem Leads.perform (h : Leads s calls t) (now : Instant) (step : StoreStep) :
    Leads s (calls ++ [⟨now, step, (step.perform t now).1⟩]) (step.perform t now).2 :=
  h.call rfl

theorem Leads.snoc (h : Leads s (calls ++ [c]) u) :
    ∃ t, Leads s calls t ∧ Performs t c.now c.step c.reply u := by
  generalize he : calls ++ [c] = all at h
  cases h with
  | none => simp at he
  | @call t _ _ now step reply ht hp =>
    obtain ⟨rfl, hc⟩ := List.append_inj' he rfl
    obtain rfl := List.singleton_injective hc
    exact ⟨t, ht, performs_of_perform hp⟩

theorem Leads.split {before after : List Call} (h : Leads s (before ++ after) u) :
    ∃ t, Leads s before t ∧ Leads t after u := by
  generalize he : before ++ after = all at h
  induction h generalizing after with
  | none =>
    obtain ⟨rfl, rfl⟩ := List.append_eq_nil_iff.mp he
    exact ⟨_, .none _, .none _⟩
  | call ht hp ih =>
    induction after using List.reverseRecOn with
    | nil =>
      rw [List.append_nil] at he
      subst he
      exact ⟨_, ht.call hp, .none _⟩
    | append_singleton after c _ =>
      rw [← List.append_assoc] at he
      obtain ⟨hcalls, hc⟩ := List.append_inj' he rfl
      obtain ⟨t', hb, ha⟩ := ih hcalls
      obtain rfl := List.singleton_injective hc
      exact ⟨t', hb, ha.call hp⟩

theorem winners_append (a b : List Call) : winners (a ++ b) = winners a ++ winners b := by
  simp [winners]

theorem saves_append (id : String) (a b : List Call) :
    saves id (a ++ b) = saves id a + saves id b := by
  simp [saves, winners_append]

/-- What the calls so far have made of an empty store. A state count has come round to zero once its
record has been saved `2 ^ 64` times; then no save of it succeeds any more. -/
structure Counted (calls : List Call) (s : Store) : Prop where
  tidy : s.Tidy
  named : s.find? "" = none
  unsaved : ∀ id, s.find? id = none → saves id calls = 0
  version : ∀ id v, s.find? id = some v → saves id calls = v.version + 1
  leases : ∀ id lease, s.leases.get? id = some lease → (s.find? id).isSome
  earlier : ∀ n ∈ winners calls, n.stateCount.toNat < saves n.id calls
  single : (winners calls).Pairwise fun m n => m.id = n.id → m.stateCount ≠ n.stateCount

theorem counted_empty (d : Int) : Counted [] { leaseDuration := d } where
  tidy := List.nodup_nil
  named := rfl
  unsaved _ _ := rfl
  version _ _ h := by cases h
  leases _ _ h := by cases h
  earlier _ h := by cases h
  single := .nil

theorem Counted.unsaving (h : Counted calls s) (hc : c.saved? = none) (hr : t.records = s.records)
    (hl : ∀ id lease, t.leases.get? id = some lease →
      s.leases.get? id = some lease ∨ (s.find? id).isSome) : Counted (calls ++ [c]) t := by
  have hw : winners (calls ++ [c]) = winners calls := by
    simp [winners, hc]
  have hf (id : String) : t.find? id = s.find? id := by
    simp only [find?, hr]
  have hs (id : String) : saves id (calls ++ [c]) = saves id calls := by
    simp only [saves, hw]
  constructor
  case tidy => simpa only [Tidy, hr] using h.tidy
  case named => rw [hf, h.named]
  case unsaved =>
    intro id hid
    rw [hs, h.unsaved id (hf id ▸ hid)]
  case version =>
    intro id v hv
    rw [hs, h.version id v (hf id ▸ hv)]
  case leases =>
    intro id lease hlease
    rw [hf]
    exact (hl id lease hlease).elim (h.leases id lease) fun hid => hid
  case earlier =>
    intro n hn
    rw [hs]
    exact h.earlier n (hw ▸ hn)
  case single =>
    rw [hw]
    exact h.single

theorem Counted.number (h : Counted calls s) (hs : Saved s n w t) :
    n.stateCount.toNat = saves n.id calls ∧ saves n.id calls = w.version := by
  cases hs with
  | first _ hc hf =>
    rw [h.unsaved n.id hf, hc]
    exact ⟨rfl, by simp [Negotiation.version]⟩
  | next v _ hc hf hv =>
    rw [h.version n.id v hf]
    have hsucc := Negotiation.version_succ (w := { n with stateCount := n.stateCount + 1 })
      (hv ▸ hc) (congrArg (· + 1) hv.symm)
    exact ⟨by rw [← hv, Negotiation.toNat_stateCount (hv ▸ hc)], hsucc.symm⟩

theorem Counted.saving (h : Counted calls s) (hc : c.saved? = some n) (hs : Saved s n w t) :
    Counted (calls ++ [c]) t := by
  obtain ⟨hnumber, hversion⟩ := h.number hs
  have hid := hs.id
  have hw : winners (calls ++ [c]) = winners calls ++ [n] := by
    simp [winners, hc]
  have hsame : saves n.id (calls ++ [c]) = saves n.id calls + 1 := by
    simp [saves, hw]
  have hother (id : String) (hne : id ≠ n.id) : saves id (calls ++ [c]) = saves id calls := by
    simp [saves, hw, Ne.symm hne]
  have hle (id : String) : saves id calls ≤ saves id (calls ++ [c]) := by
    rw [saves_append]
    omega
  have hnamed : n.id ≠ "" := by
    cases hs <;> assumption
  constructor
  case tidy => exact hs.tidy h.tidy
  case named => rw [hs.find?, if_neg (hid ▸ hnamed.symm), h.named]
  case unsaved =>
    intro id hnone
    rw [hs.find?] at hnone
    split at hnone
    · cases hnone
    · rename_i hne
      rw [hother id (hid ▸ hne), h.unsaved id hnone]
  case version =>
    intro id v hv
    rw [hs.find?] at hv
    split at hv
    · rename_i he
      rw [he, hid, hsame, hversion, Option.some.inj hv]
    · rename_i hne
      rw [hother id (hid ▸ hne), h.version id v hv]
  case leases =>
    intro id lease hlease
    rw [hs.leases] at hlease
    rw [hs.find?]
    split
    · rfl
    · exact h.leases id lease hlease
  case earlier =>
    intro m hm
    rw [hw, List.mem_append, List.mem_singleton] at hm
    rcases hm with hm | rfl
    · exact Nat.lt_of_lt_of_le (h.earlier m hm) (hle m.id)
    · omega
  case single =>
    rw [hw, List.pairwise_append]
    refine ⟨h.single, List.pairwise_singleton _ _, ?_⟩
    intro m hm n' hn' he hcount
    obtain rfl := List.mem_singleton.mp hn'
    have hlt := h.earlier m hm
    rw [he, hcount, hnumber] at hlt
    omega

theorem Counted.performs (h : Counted calls s) (hp : Performs s c.now c.step c.reply t) :
    Counted (calls ++ [c]) t := by
  obtain ⟨now, step, reply⟩ := c
  cases hp with
  | saved hs => exact h.saving rfl (saved_of_save hs)
  | refused => exact h.unsaving rfl rfl fun _ _ hl => .inl hl
  | leased hl =>
    have hleases := leases_of_leaseNext hl
    refine h.unsaving rfl hleases.records fun id lease hlease => ?_
    rw [get?_leaseNext hl] at hlease
    split at hlease
    · rename_i hid
      obtain ⟨n, hn, rfl⟩ := List.mem_map.mp hid
      exact .inr (by rw [h.tidy.find?_of_mem (hleases.stored n hn), Option.isSome_some])
    · exact .inl hlease
  | broken hb =>
    rcases breakLease_cases hb with rfl | rfl
    · exact h.unsaving rfl rfl fun _ _ hl => .inl hl
    · refine h.unsaving rfl rfl fun id lease hlease => ?_
      rw [Table.get?_erase] at hlease
      split at hlease
      · cases hlease
      · exact .inl hlease
  | held => exact h.unsaving rfl rfl fun _ _ hl => .inl hl
  | read hsave =>
    refine h.unsaving ?_ rfl fun _ _ hl => .inl hl
    cases step with
    | save n holder => exact absurd rfl (hsave n holder)
    | _ => rfl

theorem Leads.counted {d : Int} (h : Leads { leaseDuration := d } calls s) : Counted calls s := by
  induction h with
  | none => exact counted_empty d
  | call _ hp ih => exact ih.performs (performs_of_perform hp)

theorem saves_le_length (id : String) (calls : List Call) : saves id calls ≤ calls.length :=
  Nat.le_trans List.countP_le_length (List.length_filterMap_le _ _)

theorem Counted.isSome_iff (h : Counted calls s) (id : String) :
    (s.find? id).isSome ↔ 0 < saves id calls := by
  cases hf : s.find? id with
  | none => simp [h.unsaved id hf]
  | some v => simp [h.version id v hf]

theorem version_of_zero (h : n.stateCount = 0) : n.version = 2 ^ 64 - 1 := by
  simp [Negotiation.version, h]

theorem Counted.stateCount_ne_zero (h : Counted calls s) (hv : s.find? id = some v)
    (hfew : saves id calls < 2 ^ 64) : v.stateCount ≠ 0 := by
  intro hc
  rw [h.version id v hv, version_of_zero hc] at hfew
  omega

theorem Counted.toNat_saved (h : Counted calls s) (hs : Saved s n w t)
    (hfew : saves n.id calls < 2 ^ 64 - 1) : w.stateCount.toNat = n.stateCount.toNat + 1 := by
  obtain ⟨hnumber, hversion⟩ := h.number hs
  have hne : w.stateCount ≠ 0 := by
    intro hc
    rw [version_of_zero hc] at hversion
    omega
  rw [Negotiation.toNat_stateCount hne, hnumber, hversion]

/-- An empty store is called in any order, with any records, by any holders and at any times. It
stores what was saved for good, counts the saves, and lets one of the saves of a version succeed. A
save that is refused changes nothing. -/
theorem stateCount_eq_saves {d : Int} (h : Leads { leaseDuration := d } calls s)
    (hfew : ∀ id, saves id calls < 2 ^ 64 - 1) :
    (∀ id v, s.find? id = some v →
      v.id = id ∧ v.stateCount.toNat = saves id calls ∧ 1 ≤ v.stateCount.toNat) ∧
    (∀ id, s.find? id = none → saves id calls = 0) ∧
    (∀ before after t, calls = before ++ after → Leads { leaseDuration := d } before t →
      ∀ id, (t.find? id).isSome → (s.find? id).isSome) ∧
    (∀ id lease, s.leases.get? id = some lease → (s.find? id).isSome) ∧
    (winners calls).Pairwise (fun m n => m.id = n.id → m.stateCount ≠ n.stateCount) ∧
    (∀ n holder now count t, (StoreStep.save n holder).perform s now = (.saved none count, t) →
      count.toNat = n.stateCount.toNat + 1 ∧ t.leases = s.leases ∧
      ∀ id, t.find? id = if id = n.id then some { n with stateCount := count } else s.find? id) ∧
    ∀ n holder now error count t,
      (StoreStep.save n holder).perform s now = (.saved (some error) count, t) →
      count = n.stateCount ∧ t = s := by
  have hc := h.counted
  refine ⟨?_, hc.unsaved, ?_, hc.leases, hc.single, ?_, ?_⟩
  · intro id v hv
    have hne := hc.stateCount_ne_zero hv (by have := hfew id; omega)
    rw [Negotiation.toNat_stateCount hne, hc.version id v hv]
    exact ⟨id_of_find? hv, rfl, by omega⟩
  · intro before after t he ht id hid
    rw [hc.isSome_iff, he, saves_append]
    have hpos := (ht.counted.isSome_iff id).mp hid
    omega
  · intro n holder now count t hp
    simp only [StoreStep.perform] at hp
    split at hp <;> cases hp
    rename_i w hs
    have hs := saved_of_save hs
    have hw : w = { n with stateCount := w.stateCount } := by
      cases hs <;> rfl
    refine ⟨hc.toNat_saved hs (hfew n.id), hs.leases, fun id => ?_⟩
    rw [hs.find?, hs.id, ← hw]
  · intro n holder now error count t hp
    simp only [StoreStep.perform] at hp
    split at hp <;> cases hp
    exact ⟨rfl, rfl⟩

theorem stateCount_eq_saves_of_race : ∃ calls s, Leads { leaseDuration := 60000 } calls s ∧
    calls.length = 3 ∧ saves "n" calls = 2 ∧
    (s.find? "n").map Negotiation.stateCount = some 2 ∧
    (∀ id v, s.find? id = some v →
      v.id = id ∧ v.stateCount.toNat = saves id calls ∧ 1 ≤ v.stateCount.toNat) ∧
    (winners calls).Pairwise (fun m n => m.id = n.id → m.stateCount ≠ n.stateCount) := by
  have h := (Leads.none { leaseDuration := 60000 }).perform default (.save { id := "n" } "")
  have h := h.perform default (.save { id := "n", stateCount := 1 } "one")
  have h := h.perform default (.save { id := "n", stateCount := 1 } "other")
  have hcalls := stateCount_eq_saves h fun id =>
    Nat.lt_of_le_of_lt (saves_le_length id _) (by decide)
  exact ⟨_, _, h, rfl, rfl, rfl, hcalls.1, hcalls.2.2.2.2.1⟩

end ContractNegotiation.Store
