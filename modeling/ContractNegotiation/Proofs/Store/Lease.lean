import ContractNegotiation.Proofs.Store.Calls

namespace ContractNegotiation.Store

open Simulation

variable {s t u : Store} {calls : List Call} {c : Call} {id holder : String} {n v : Negotiation}
  {now : Instant} {lease : Lease}

theorem liveLease?_eq (hl : s.leases.get? id = some lease) (hlive : now < lease.expiresAt) :
    s.liveLease? id now = some lease := by
  simp [liveLease?, hl, hlive]

theorem error_of_leased (hf : s.find? n.id = some v) (hl : s.leases.get? n.id = some lease)
    (hlive : now < lease.expiresAt) (hh : holder ≠ lease.holder) :
    ∃ e, s.save n holder now = .error e := by
  have hother : (s.liveLease? n.id now).filter (·.holder ≠ holder) = some lease := by
    simp [liveLease?_eq hl hlive, Option.filter_some, Ne.symm hh]
  unfold save
  split
  · exact ⟨_, rfl⟩
  · split
    · simp only [hf]
      exact ⟨_, rfl⟩
    · simp only [hf, hother]
      exact ⟨_, rfl⟩

theorem error_of_held (hl : s.leases.get? id = some lease) (hlive : now < lease.expiresAt)
    (hh : holder ≠ lease.holder) :
    s.breakLease id holder now = .error (.leaseHeld id lease.holder) := by
  simp [breakLease, hl, hlive, Ne.symm hh]

theorem expired_of_leaseNext {code : Int} {role : Option Role} {batch : Nat} {ns : List Negotiation}
    (h : s.leaseNext code role batch holder now = (ns, t)) (hn : n ∈ ns)
    (hl : s.leases.get? n.id = some lease) : lease.expiresAt ≤ now := by
  have hn := mem_candidates_of_leaseNext h hn
  simp only [candidates, List.mem_filter, Bool.and_eq_true, Option.isNone_iff_eq_none] at hn
  by_contra hlive
  rw [Instant.le_def, Int.not_le, ← Instant.lt_def] at hlive
  rw [liveLease?_eq hl hlive] at hn
  cases hn.2.2

structure Reserved (s : Store) (n : Negotiation) (lease : Lease) : Prop where
  stored : s.find? n.id = some n
  lease : s.leases.get? n.id = some lease

theorem Reserved.performs (h : Reserved s n lease) (hp : Performs s c.now c.step c.reply t)
    (hlive : c.now < lease.expiresAt) (hsave : ¬ c.Saves n.id lease.holder)
    (hbreak : ¬ c.Breaks n.id lease.holder) : Reserved t n lease := by
  obtain ⟨now, step, reply⟩ := c
  cases hp with
  | @saved m w holder t hs =>
    by_cases hid : m.id = n.id
    · by_cases hh : holder = lease.holder
      · exact absurd ⟨m, _, hh ▸ rfl, hid, rfl⟩ hsave
      · obtain ⟨e, he⟩ := error_of_leased (hid ▸ h.stored) (hid ▸ h.lease) hlive hh
        rw [he] at hs
        cases hs
    · have hs := saved_of_save hs
      refine ⟨?_, hs.leases ▸ h.lease⟩
      rw [hs.find?, hs.id, if_neg (Ne.symm hid), h.stored]
  | refused => exact h
  | leased hl =>
    refine ⟨by simpa only [Store.find?, (leases_of_leaseNext hl).records] using h.stored, ?_⟩
    rw [get?_leaseNext hl, if_neg, h.lease]
    intro hn
    obtain ⟨m, hm, hid⟩ := List.mem_map.mp hn
    have hle := expired_of_leaseNext hl hm (hid ▸ h.lease)
    simp only [Instant.le_def, Instant.lt_def] at hle hlive
    omega
  | @broken id holder t hb =>
    by_cases hid : id = n.id
    · subst hid
      by_cases hh : holder = lease.holder
      · exact absurd ⟨hh ▸ rfl, rfl⟩ hbreak
      · rw [error_of_held h.lease hlive hh] at hb
        cases hb
    · rcases breakLease_cases hb with rfl | rfl
      · exact h
      · refine ⟨h.stored, ?_⟩
        rw [Table.get?_erase, if_neg (Ne.symm hid), h.lease]
  | held => exact h
  | read => exact h

theorem Reserved.leads (h : Reserved s n lease) (hl : Leads s calls t)
    (hc : ∀ c ∈ calls, c.now < lease.expiresAt ∧ ¬ c.Saves n.id lease.holder ∧
      ¬ c.Breaks n.id lease.holder) : Reserved t n lease := by
  induction hl with
  | none => exact h
  | call _ hp ih =>
    obtain ⟨hlive, hsave, hbreak⟩ := hc _ (List.mem_append_right _ (List.mem_singleton_self _))
    have ih := ih fun c hcalls => hc c (List.mem_append_left _ hcalls)
    exact ih.performs (performs_of_perform hp) hlive hsave hbreak

theorem reserved_of_handsOut (hs : s.Tidy) (hp : Performs s c.now c.step c.reply t)
    (hc : c.HandsOut n holder) : Reserved t n ⟨holder, c.now.later s.leaseDuration⟩ := by
  obtain ⟨now, step, reply⟩ := c
  obtain ⟨code, role, batch, ns, rfl, rfl, hn⟩ := hc
  cases hp with
  | leased hl =>
    have hleases := leases_of_leaseNext hl
    refine ⟨?_, ?_⟩
    · simpa only [Store.find?, hleases.records] using hs.find?_of_mem (hleases.stored n hn)
    · rw [get?_leaseNext hl, if_pos (List.mem_map_of_mem hn)]
  | read _ hl => exact absurd rfl (hl code role batch holder)

theorem Leads.leaseDuration (h : Leads s calls t) : t.leaseDuration = s.leaseDuration := by
  induction h with
  | none => rfl
  | call _ hp ih =>
    rw [← ih]
    cases performs_of_perform hp with
    | saved hs => exact (saved_of_save hs).leaseDuration
    | leased hl =>
      obtain ⟨-, rfl⟩ := Prod.mk.inj hl
      rfl
    | broken hb => rcases breakLease_cases hb with rfl | rfl <;> rfl
    | refused | held | read => rfl

theorem Leads.unexpired (h : Leads s calls t) (hl : s.leases.get? id = some lease) :
    (∃ c ∈ calls, ∃ other, c.Breaks id other) ∨ (∃ c ∈ calls, lease.expiresAt ≤ c.now) ∨
      t.leases.get? id = some lease := by
  induction h with
  | none => exact .inr (.inr hl)
  | @call t u calls now step reply _ hp ih =>
    have hlast {c : Call} : c ∈ calls ++ [c] := List.mem_append_right _ (List.mem_singleton_self c)
    rcases ih with ⟨c, hc, hb⟩ | ⟨c, hc, hb⟩ | ih
    · exact .inl ⟨c, List.mem_append_left _ hc, hb⟩
    · exact .inr (.inl ⟨c, List.mem_append_left _ hc, hb⟩)
    · by_cases hlive : lease.expiresAt ≤ now
      · exact .inr (.inl ⟨_, hlast, hlive⟩)
      · cases performs_of_perform hp with
        | saved hs => exact .inr (.inr ((saved_of_save hs).leases ▸ ih))
        | leased hn =>
          refine .inr (.inr ?_)
          rw [get?_leaseNext hn, if_neg, ih]
          intro hid
          obtain ⟨m, hm, rfl⟩ := List.mem_map.mp hid
          exact hlive (expired_of_leaseNext hn hm ih)
        | @broken other holder _ hb =>
          by_cases hid : other = id
          · exact .inl ⟨_, hlast, holder, hid ▸ rfl, rfl⟩
          · rcases breakLease_cases hb with rfl | rfl
            · exact .inr (.inr ih)
            · refine .inr (.inr ?_)
              rw [Table.get?_erase, if_neg (Ne.symm hid), ih]
        | refused | held | read => exact .inr (.inr ih)

/-- Nobody but the holder can do anything to a record: it is as it was handed out, it is not handed
out again, and what others try to do to it is refused. -/
structure Guards (s : Store) (n : Negotiation) (holder : String) (now : Instant) : Prop where
  stored : s.find? n.id = some n
  unavailable : ∀ code role batch other, ∀ m ∈ (s.leaseNext code role batch other now).1,
    m.id ≠ n.id
  unsaved : ∀ m other, m.id = n.id → other ≠ holder → ∃ e, s.save m other now = .error e
  unbroken : ∀ other, other ≠ holder → ∃ e, s.breakLease n.id other now = .error e

theorem Reserved.guards (h : Reserved s n lease) (hlive : now < lease.expiresAt) :
    s.Guards n lease.holder now where
  stored := h.stored
  unavailable code role batch other m hm hid := by
    have hnext : s.leaseNext code role batch other now = (_, _) := rfl
    have hle := expired_of_leaseNext hnext hm (hid ▸ h.lease)
    simp only [Instant.le_def, Instant.lt_def] at hle hlive
    omega
  unsaved m other hid hh := error_of_leased (hid ▸ h.stored) (hid ▸ h.lease) hlive hh
  unbroken other hh := ⟨_, error_of_held h.lease hlive hh⟩

theorem Leads.reserved {d : Int} {before after : List Call}
    (h : Leads { leaseDuration := d } (before ++ c :: after) s) (hout : c.HandsOut n holder) :
    ∃ t, Reserved t n ⟨holder, c.now.later d⟩ ∧ Leads t after s := by
  rw [List.append_cons] at h
  obtain ⟨t, ht, hafter⟩ := h.split
  obtain ⟨u, hu, hp⟩ := ht.snoc
  have hd : u.leaseDuration = d := hu.leaseDuration
  exact ⟨t, hd ▸ reserved_of_handsOut hu.counted.tidy hp hout, hafter⟩

theorem Reserved.save_ok (h : Reserved s n lease) (hc : Counted calls s)
    (hfew : saves n.id calls < 2 ^ 64) (hid : v.id = n.id) (hcount : v.stateCount = n.stateCount) :
    ∃ w t, s.save v lease.holder now = .ok (w, t) := by
  have hne := hc.stateCount_ne_zero h.stored hfew
  have hnamed : n.id ≠ "" := by
    intro he
    have hf := h.stored
    rw [he, hc.named] at hf
    cases hf
  refine ⟨_, _, save_next (hid ▸ hnamed) (hcount ▸ hne) (hid ▸ h.stored) hcount.symm ?_⟩
  intro other hother
  rw [hid, h.lease] at hother
  rw [← Option.some.inj hother]

theorem expired_of_handsOut (hp : Performs s c.now c.step c.reply t) (hout : c.HandsOut n holder)
    (hl : s.leases.get? n.id = some lease) : lease.expiresAt ≤ c.now := by
  obtain ⟨now, step, reply⟩ := c
  obtain ⟨code, role, batch, ns, rfl, rfl, hn⟩ := hout
  cases hp with
  | leased hnext => exact expired_of_leaseNext hnext hn hl
  | read _ hlease => exact absurd rfl (hlease code role batch holder)

/-- While its clock does not go back, a store that was empty keeps a record that it has handed out
for the holder, until the lease expires or the holder saves the record or gives it back. The holder
can then save it, unless the state count has come round to zero. No record is handed out again
before its lease was given back or has expired. -/
theorem leases_exclusive {d : Int} (h : Leads { leaseDuration := d } calls s)
    (hclock : calls.Pairwise fun c c' => c.now ≤ c'.now) :
    (∀ before c between n holder now, calls = before ++ c :: between → c.HandsOut n holder →
      (∀ c' ∈ between, ¬ c'.Saves n.id holder ∧ ¬ c'.Breaks n.id holder) →
      (∀ c' ∈ calls, c'.now ≤ now) → now < c.now.later d →
      s.Guards n holder now ∧
        (saves n.id calls < 2 ^ 64 → ∀ m, m.id = n.id → m.stateCount = n.stateCount →
          ∃ w t, s.save m holder now = .ok (w, t))) ∧
    ∀ before c between c' after n n' holder holder',
      calls = before ++ c :: (between ++ c' :: after) → c.HandsOut n holder →
      c'.HandsOut n' holder' → n'.id = n.id →
      (∃ b ∈ between, ∃ other, b.Breaks n.id other) ∨ c.now.later d ≤ c'.now := by
  constructor
  · rintro before c between n holder now rfl hout hquiet hnow hlive
    obtain ⟨t, hr, ht⟩ := h.reserved hout
    have hr := hr.leads ht fun c' hc' => by
      have hle := hnow c' (List.mem_append_right _ (List.mem_cons_of_mem _ hc'))
      refine ⟨?_, hquiet c' hc'⟩
      simp only [Instant.le_def, Instant.lt_def] at hle hlive ⊢
      omega
    exact ⟨hr.guards hlive, fun hfew m hid hcount => hr.save_ok h.counted hfew hid hcount⟩
  · rintro before c between c' after n n' holder holder' rfl hout hout' hid
    obtain ⟨t, hr, ht⟩ := h.reserved hout
    rw [List.append_cons] at ht
    obtain ⟨u, hu, -⟩ := ht.split
    obtain ⟨u', hu', hp⟩ := hu.snoc
    rcases hu'.unexpired hr.lease with hb | ⟨b, hb, hle⟩ | hl
    · exact .inl hb
    · -- The lease had expired at an earlier call, and the clock has not gone back since.
      have hclock := (List.pairwise_cons.mp (List.pairwise_append.mp hclock).2.1).2
      have hbc := (List.pairwise_append.mp hclock).2.2 b hb c' (List.mem_cons_self ..)
      refine .inr ?_
      simp only [Instant.le_def] at hle hbc ⊢
      omega
    · exact .inr (expired_of_handsOut hp hout' (hid ▸ hl))

theorem leases_exclusive_of_outlived : ∃ calls s n now, Leads { leaseDuration := 60000 } calls s ∧
    calls.length = 4 ∧ n.id = "n" ∧
    (∃ t, Leads { leaseDuration := 60000 } (calls.take 3) t ∧ t.Guards n "one" now ∧
      ∃ w u, t.save n "one" now = .ok (w, u)) ∧
    ∃ c ∈ calls, ∃ c' ∈ calls, c.HandsOut n "one" ∧ c'.HandsOut n "two" ∧
      c.now.later 60000 ≤ c'.now := by
  let n : Negotiation := { id := "n", role := some .consumer, stateCode := 100, stateCount := 1 }
  have h := (Leads.none { leaseDuration := 60000 }).perform (.ofMillis 0)
    (.save { n with stateCount := 0 } "")
  have h := h.perform (.ofMillis 0) (.lease 100 (some .consumer) 5 "one")
  have h := h.perform (.ofMillis 30000) (.save n "other")
  have h' := h.perform (.ofMillis 60000) (.lease 100 (some .consumer) 5 "two")
  obtain ⟨hguards, hsave⟩ := (leases_exclusive h (by decide +kernel)).1 [_] _ [_] n "one"
    (.ofMillis 45000) rfl ⟨_, _, _, _, rfl, rfl, by decide +kernel⟩ (by
      intro c hc
      obtain rfl := List.mem_singleton.mp hc
      constructor
      · rintro ⟨_, _, hsave, -⟩
        exact absurd (StoreStep.save.inj hsave).2 (by decide)
      · rintro ⟨hbreak, -⟩
        cases hbreak) (by decide +kernel) (by decide +kernel)
  have hsave := hsave (Nat.lt_of_le_of_lt (saves_le_length _ _) (by decide)) n rfl rfl
  have hlater := (leases_exclusive h' (by decide +kernel)).2 [_] _ [_] _ [] n n "one" "two" rfl
    ⟨_, _, _, _, rfl, rfl, by decide +kernel⟩ ⟨_, _, _, _, rfl, rfl, by decide +kernel⟩ rfl
  refine ⟨_, _, n, .ofMillis 45000, h', rfl, rfl, ⟨_, h, hguards, hsave⟩, _,
    List.mem_cons_of_mem _ (List.mem_cons_self ..), _, List.mem_append_right _
      (List.mem_singleton_self _), ⟨_, _, _, _, rfl, rfl, by decide +kernel⟩,
    ⟨_, _, _, _, rfl, rfl, by decide +kernel⟩, ?_⟩
  refine hlater.resolve_left ?_
  rintro ⟨b, hb, other, hother, -⟩
  obtain rfl := List.mem_singleton.mp hb
  cases hother

end ContractNegotiation.Store
