import ContractNegotiation.Proofs.Manager.Upkeep
import ContractNegotiation.Proofs.Timed.Round

namespace ContractNegotiation

open ContractNegotiation.Action

namespace Site

variable {s : Site}

structure Enduring (Q : Site → Prop) : Prop where
  store {s : Site} (store : Store) : Q s → Q { s with store }
  update {s : Site} (role : Role) {f : Workload → Workload} :
    (∀ w, w.queue.Tallied → (f w).queue.Tallied) → Q s → Q (s.update role f)

theorem enduring_true : Enduring fun _ => True where
  store _ h := h
  update _ _ _ h := h

theorem enduring_tallied : Enduring Tallied where
  store store h r := by
    rw [workload_store]
    exact h r
  update role f hf h r := by
    rw [workload_update]
    split
    · exact hf _ (h role)
    · exact h r

theorem get?_release {now : Instant} {holder id key : String} {lease : Lease}
    (h : (s.release now holder id).store.leases.get? key = some lease) :
    s.store.leases.get? key = some lease ∧ (key = id → lease.holder ≠ holder) := by
  have hattends : s.Attends .consumer id (s.release now holder id) := attends_release holder
  have hbefore : s.store.leases.get? key = some lease := by
    rcases hattends.leases key with he | ⟨-, hn⟩
    · rwa [he] at h
    · rw [hn] at h
      cases h
  refine ⟨hbefore, fun hkey hholder => ?_⟩
  subst hkey
  have howned (lease' : Lease) (hl : s.store.leases.get? key = some lease') :
      lease'.holder = holder := by
    rw [hbefore] at hl
    cases hl
    exact hholder
  rw [leases_release howned, if_pos rfl] at h
  cases h

end Site

namespace Timed

variable {n : Nat} {m : Manager} {clock : Nat → Instant} {ids : Nat → String} {i : Fin n}
  {send : Transport (Timed n)} {s t u : Timed n} {v : Negotiation} {Q : Site → Prop}
  {old : Table Lease} {holder id : String} {names others : List String}

structure Owes (i : Fin n) (Q : Site → Prop) (old : Table Lease) (holder : String)
    (names : List String) (s : Timed n) : Prop where
  kept : Q (s.site i)
  leases : ∀ key lease, (s.site i).store.leases.get? key = some lease →
    old.get? key = some lease ∨ lease.holder = holder ∧ key ∈ names

structure Frees (i : Fin n) (Q : Site → Prop) (s t : Timed n) : Prop where
  kept : Q (t.site i)
  leases : ∀ key lease, (t.site i).store.leases.get? key = some lease →
    (s.site i).store.leases.get? key = some lease

theorem Frees.refl (hs : Q (s.site i)) : Frees i Q s s := ⟨hs, fun _ _ h => h⟩

theorem Frees.trans (h : Frees i Q s t) (h' : Frees i Q t u) : Frees i Q s u :=
  ⟨h'.kept, fun key lease hl => h.leases key lease (h'.leases key lease hl)⟩

theorem Owes.frees (h : Owes i Q old holder names s) (hf : Frees i Q s t) :
    Owes i Q old holder names t :=
  ⟨hf.kept, fun key lease hl => h.leases key lease (hf.leases key lease hl)⟩

theorem Owes.of_site (h : Owes i Q old holder names s) (ht : t.site i = s.site i) :
    Owes i Q old holder names t := by
  refine ⟨?_, ?_⟩
  · rw [ht]
    exact h.kept
  · rw [ht]
    exact h.leases

theorem Owes.weaken (h : Owes i Q old holder names s) (hsub : ∀ key ∈ names, key ∈ others) :
    Owes i Q old holder others s :=
  ⟨h.kept, fun key lease hl => (h.leases key lease hl).imp_right fun ho => ⟨ho.1, hsub key ho.2⟩⟩

theorem owes_start (hs : Q (s.site i)) : Owes i Q (s.site i).store.leases holder [] s :=
  ⟨hs, fun _ _ hl => .inl hl⟩

theorem Owes.toFrees (h : Owes i Q (s.site i).store.leases holder [] t) : Frees i Q s t :=
  ⟨h.kept, fun key lease hl => (h.leases key lease hl).resolve_right fun ho =>
    absurd ho.2 List.not_mem_nil⟩

section Operations

variable (hQ : Site.Enduring Q)
include hQ

theorem Owes.update (h : Owes i Q old holder names s) {role : Role} {f : Workload → Workload}
    (hf : ∀ w, w.queue.Tallied → (f w).queue.Tallied)
    (ht : t.site i = (s.site i).update role f) : Owes i Q old holder names t := by
  refine ⟨?_, ?_⟩
  · rw [ht]
    exact hQ.update role hf h.kept
  · rw [ht, Site.store_update]
    exact h.leases

theorem environment_sustains :
    (environment clock ids i).Sustains (Owes i Q old holder names) := by
  have quiet {α : Type} {x : Action (Timed n) α}
      (hx : ∀ s, Yields x s fun _ t => t.site i = s.site i) :
      Action.Sustains (Owes i Q old holder names) x := fun s hs =>
    (hx s).ends fun _ _ ht => hs.of_site ht
  exact {
    now := quiet fun _ => ⟨_, _, rfl, rfl⟩
    freshId := quiet fun _ => ⟨_, _, rfl, rfl⟩
    report := fun notice => quiet fun _ => report_yields notice
    find := fun _ => quiet fun _ => ⟨_, _, rfl, rfl⟩
    findByCorrelation := fun _ => quiet fun _ => ⟨_, _, rfl, rfl⟩
    findAgreement := fun _ => quiet fun _ => ⟨_, _, rfl, rfl⟩
    select := fun _ => quiet fun _ => ⟨_, _, rfl, rfl⟩
    workload := fun _ => quiet fun _ => ⟨_, _, rfl, rfl⟩
    update := fun role f hf s hs =>
      (update_yields role f).ends fun _ _ ht => hs.update hQ hf ht
    save := by
      intro w by_holder s hs
      apply (save_yields w by_holder).ends
      intro r t ht
      split at ht
      · exact hs.of_site ht.2
      · rename_i saved store hsave
        refine ⟨?_, ?_⟩
        · rw [ht.2]
          exact hQ.store store hs.kept
        · rw [ht.2, (Store.saved_of_save hsave).leases]
          exact hs.leases
    unbracketed := rfl }

theorem release_owes (h : Owes i Q old m.leaseHolder (id :: names) s) :
    Yields (m.release (environment clock ids i) id) s fun _ t =>
      Owes i Q old m.leaseHolder names t := by
  apply ((situated clock ids i).release_yields m (p := s.page i) rfl id).mono
  intro _ t ht
  replace ht : t.site i = (s.site i).release (clock s.readings) m.leaseHolder id := ht
  refine ⟨?_, fun key lease hl => ?_⟩
  · rw [ht]
    unfold Site.release
    split
    · exact hQ.store _ h.kept
    · exact h.kept
  · rw [ht] at hl
    obtain ⟨hbefore, hother⟩ := Site.get?_release hl
    rcases h.leases key lease hbefore with hold | ⟨hholder, hmem⟩
    · exact .inl hold
    · right
      refine ⟨hholder, (List.mem_cons.mp hmem).resolve_left fun hkey => ?_⟩
      exact hother hkey hholder

theorem recordFailure_owes (h : Owes i Q old holder names s) (id : String) :
    Yields (m.recordFailure (environment clock ids i) id) s fun _ t =>
      Owes i Q old holder names t := by
  apply ((situated clock ids i).recordFailure_yields m (p := s.page i) rfl id).mono
  rintro _ t ⟨-, ht⟩
  let counted (w : Workload) : Workload :=
    { w with retries := (w.retries.recordFailure m.options.backoff id (clock s.readings)).2 }
  have hcounted (w : Workload) (hw : w.queue.Tallied) : (counted w).queue.Tallied := hw
  exact h.update hQ hcounted ht

end Operations

section Rounds

variable (hQ : Site.Enduring Q)
  (hsend : ∀ message s, Q (s.site i) → Frees i Q s ((send message).after s))
include hQ hsend

def Returned (i : Fin n) (Q : Site → Prop) (old : Table Lease) (holder id : String)
    (names : List String) (r : Except Fault Bool) (t : Timed n) : Prop :=
  Owes i Q old holder (id :: names) t ∧ (r = .ok true → Owes i Q old holder names t)

omit hQ hsend in
theorem returned_of_ne {r : Except Fault Bool} (hr : r ≠ .ok true)
    (h : Owes i Q old holder (id :: names) s) : Returned i Q old holder id names r s :=
  ⟨h, fun he => absurd he hr⟩

theorem advance_owes (h : Owes i Q old m.leaseHolder (v.id :: names) s) :
    Ends (m.advance (environment clock ids i) send v) s
      (Returned i Q old m.leaseHolder v.id names) := by
  have hops : (environment clock ids i).Sustains (Owes i Q old m.leaseHolder (v.id :: names)) :=
    environment_sustains hQ
  have settles {x : Action (Timed n) Unit} {t : Timed n}
      (hx : Sustains (Owes i Q old m.leaseHolder (v.id :: names)) x)
      (ht : Owes i Q old m.leaseHolder (v.id :: names) t) :
      Ends (do x; pure false) t (Returned i Q old m.leaseHolder v.id names) :=
    (hx t ht).bind (fun _ _ hu => returned_of_ne (by simp) hu) fun _ _ hu =>
      returned_of_ne (by simp) hu
  have returns {t : Timed n} (notice : Notice)
      (ht : Owes i Q old m.leaseHolder (v.id :: names) t) :
      Ends (do
        (environment clock ids i).report notice
        m.release (environment clock ids i) v.id
        pure true) t (Returned i Q old m.leaseHolder v.id names) := by
    apply (report_yields notice).bind_ends
    intro _ u hu
    apply (release_owes hQ (ht.of_site hu)).bind_ends
    intro _ u' hu'
    exact ⟨hu'.weaken fun key hkey => List.mem_cons_of_mem _ hkey, fun _ => hu'⟩
  apply ((situated clock ids i).transition_yields (p := s.page i) rfl v m.turn).bind_ends
  rintro outcome t ⟨ht, -⟩
  replace h := h.of_site ht
  rcases outcome with ⟨next, _ | message⟩ | _ | _
  · exact settles (Manager.conclude_sustains hops m v next) h
  -- the dispatcher may have called the connector, but has left no lease behind
  · have hsent : Ends (send message) t fun _ u => Owes i Q old m.leaseHolder (v.id :: names) u := by
      apply ends_after.mono
      rintro r u rfl
      exact h.frees (hsend message t h.kept)
    apply hsent.bind
    · rintro (peer | text | text) u hu
      · apply (hops.update m.role (·.clearRetries v.id) (fun _ hw => hw) u hu).bind
        · exact fun _ _ hu' => settles (Manager.conclude_sustains hops m v _) hu'
        · exact fun _ _ hu' => returned_of_ne (by simp) hu'
      · apply (recordFailure_owes hQ hu v.id).bind_ends
        rintro ⟨exhausted, attempts⟩ u' hu'
        dsimp only
        split
        · apply (report_yields _).bind_ends
          intro _ t' ht'
          exact settles (Manager.concludeFailed_sustains hops m v _) (hu'.of_site ht')
        · exact returns _ hu'
      · apply (hops.update m.role (·.clearRetries v.id) (fun _ hw => hw) u hu).bind
        · intro _ u' hu'
          apply (report_yields _).bind_ends
          intro _ t' ht'
          exact settles (Manager.concludeFailed_sustains hops m v _) (hu'.of_site ht')
        · exact fun _ _ hu' => returned_of_ne (by simp) hu'
    · exact fun _ _ hu => returned_of_ne (by simp) hu
  · exact returns _ h
  · exact returns _ h

theorem processLeased_owes (h : Owes i Q old m.leaseHolder (v.id :: names) s) :
    Yields (m.processLeased (environment clock ids i) send v) s fun _ t =>
      Owes i Q old m.leaseHolder names t := by
  apply (advance_owes hQ hsend h).attempted.bind
  rintro (fault | returned) t ⟨ht, hreturned⟩
  · apply (report_yields _).bind
    intro _ u hu
    exact release_owes hQ (ht.of_site hu)
  · cases returned with
    | true => exact yields_pure.mpr (hreturned rfl)
    | false => exact release_owes hQ ht

theorem processState_owes (state : State) (h : Owes i Q old m.leaseHolder [] s) :
    Yields (m.processState (environment clock ids i) send state) s fun _ t =>
      Owes i Q old m.leaseHolder [] t := by
  let I (vs : List Negotiation) (t : Timed n) : Prop :=
    Owes i Q old m.leaseHolder (vs.map Negotiation.id) t
  have perm (vs ws : List Negotiation) (t : Timed n) (ht : I vs t) (hp : ws.Perm vs) : I ws t :=
    ht.weaken fun key hkey => (hp.map Negotiation.id).mem_iff.mpr hkey
  have hsifts : m.Sifts (environment clock ids i) (fun s => clock s.readings)
      (fun p s => s.site i = p.site) I :=
    ⟨perm, fun _ _ ht => ⟨_, _, rfl, ht.of_site rfl⟩, fun _ _ _ _ _ ht _ _ => release_owes hQ ht⟩
  have hlease : Yields ((environment clock ids i).lease state m.role m.options.batchSize
      m.leaseHolder) s I := by
    apply (lease_yields state m.role m.options.batchSize m.leaseHolder).mono
    rintro vs t ⟨store, hl, ht⟩
    refine ⟨?_, fun key lease hkey => ?_⟩
    · rw [ht]
      exact hQ.store store h.kept
    · rw [ht, Store.get?_leaseNext hl] at hkey
      split at hkey
      · rename_i hmem
        cases hkey
        exact .inr ⟨rfl, hmem⟩
      · exact (h.leases key lease hkey).imp_right fun ho => absurd ho.2 List.not_mem_nil
  exact (situated clock ids i).processState_keeps hsifts (p := s.page i) rfl state hlease
    (processLeased_answers m send) perm (fun _ _ _ ht => processLeased_owes hQ hsend ht)
    fun _ _ _ _ ht => ht

omit hsend in
theorem drainCommands_owes (h : Owes i Q old m.leaseHolder [] s) :
    Yields (m.drainCommands (environment clock ids i)) s fun _ t =>
      Owes i Q old m.leaseHolder [] t := by
  have hops : (environment clock ids i).Sustains (Owes i Q old m.leaseHolder []) :=
    environment_sustains hQ
  apply drainCommands_keeps
  · apply (takeCommands_yields m s).mono
    rintro _ t ⟨-, ht⟩
    exact h.update hQ (fun w hw => hw.dequeue m.options.commandBatchSize) ht
  · intro c _ u hu
    exact ((applyCommand_amends m c u).andEnds (Manager.applyCommand_sustains hops m c u hu)).mono
      fun _ _ hu' => hu'.2

theorem runOnce_frees (m : Manager) (clock : Nat → Instant) (ids : Nat → String)
    (hs : Q (s.site i)) : Frees i Q s ((m.runOnce (environment clock ids i) send).after s) := by
  let I (t : Timed n) : Prop := Owes i Q (s.site i).store.leases m.leaseHolder [] t
  have hround : Yields (m.runOnce (environment clock ids i) send) s fun _ t => I t := by
    apply (drainCommands_owes hQ (owes_start hs)).bind
    intro commands t ht
    apply (total_yields (fun _ => I) (fun state _ _ hu => processState_owes hQ hsend state hu)
      ht).bind
    intro records u hu
    exact yields_pure.mpr hu
  exact hround.after.toFrees

end Rounds

theorem serves_frees (hQ : Site.Enduring Q) {c : Connector}
    (hx : c.Serves (environment clock ids i) s t) (hs : Q (s.site i)) : Frees i Q s t := by
  have hstart : Owes i Q (s.site i).store.leases "" [] s := owes_start hs
  exact (hx.sustains (environment_sustains hQ) hstart).toFrees

theorem Runs.trans {roster : Roster n} (h : Runs roster i s t) (h' : Runs roster i t u) :
    Runs roster i s u := by
  induction h' with
  | done => exact h
  | call clock _ hx ih => exact (ih h).call clock hx
  | round role clock send _ hsend ih _ => exact (ih h).round role clock send hsend
  | elsewhere _ he ih => exact (ih h).elsewhere he

theorem Runs.frees {roster : Roster n} (h : Runs roster i s t) :
    Frees i (fun _ => True) s t := by
  induction h with
  | done => exact .refl trivial
  | call clock _ hx ih => exact ih.trans (serves_frees Site.enduring_true hx trivial)
  | round role clock send _ _ ih ihsend =>
    exact ih.trans (runOnce_frees Site.enduring_true (fun message u _ => ihsend message u) _ clock
      roster.ids trivial)
  | elsewhere _ he ih =>
    refine ⟨trivial, fun key lease hl => ih.leases key lease ?_⟩
    rwa [he] at hl

theorem Runs.clear {connectors : Vector Connector n} {draws : Nat → Identifier}
    (h : Runs (.drawing connectors draws) i s t) (hc : (connectors.get i).Typed)
    (hstart : (s.site i).store.records = [])
    (hfree : ∀ id lease, (s.site i).store.leases.get? id = some lease →
      lease.holder ≠ m.leaseHolder) : (t.site i).store.Clear m :=
  clear_of_runs hc hstart h fun id lease hl => hfree id lease (h.frees.leases id lease hl)

inductive Works (roster : Roster n) (i : Fin n) : Timed n → Timed n → Prop where
  | done (s : Timed n) : Works roster i s s
  | call {s t u : Timed n} (clock : Nat → Instant) : Works roster i s t →
      (roster.connector i).Serves (environment clock roster.ids i) t u → Works roster i s u
  | round {s t : Timed n} (role : Role) (clock : Nat → Instant) (send : Transport (Timed n)) :
      Works roster i s t → (∀ message u, Works roster i u ((send message).after u)) →
      Works roster i s ((((roster.connector i).manager role).runOnce
        (environment clock roster.ids i) send).after t)
  | start {s t : Timed n} (role : Role) (clock : Nat → Instant) : Works roster i s t →
      Works roster i s ((((roster.connector i).manager role).start
        (environment clock roster.ids i)).after t)
  | stop {s t : Timed n} (role : Role) (clock : Nat → Instant) : Works roster i s t →
      Works roster i s ((((roster.connector i).manager role).stop
        (environment clock roster.ids i)).after t)
  | elsewhere {s t u : Timed n} : Works roster i s t → u.site i = t.site i → Works roster i s u

section Work

variable {roster : Roster n} (m : Manager)

def Sets (i : Fin n) (role : Role) (s t : Timed n) : Prop :=
  ∃ f : Workload → Workload, (∀ w, w.queue.Tallied → (f w).queue.Tallied) ∧
    t.site i = (s.site i).update role f

theorem sets_self (role : Role) (s : Timed n) : Sets i role s s :=
  ⟨fun w => w, fun _ hw => hw, by cases role <;> rfl⟩

theorem start_sets : Sets i m.role s ((m.start (environment clock ids i)).after s) := by
  have hsituated := situated clock ids i
  apply Yields.after
  apply (hsituated.workload m.role (p := s.page i) rfl).bind
  rintro _ t ⟨rfl, rfl⟩
  split
  · exact yields_pure.mpr (sets_self m.role t)
  · apply (hsituated.setWorkload m.role _ (p := t.page i) rfl).bind
    intro _ u hu
    apply (report_yields _).mono
    intro _ u' hu'
    exact ⟨fun w => { w with running := true }, fun _ hw => hw, hu'.trans hu⟩

theorem stop_sets : Sets i m.role s ((m.stop (environment clock ids i)).after s) := by
  have hsituated := situated clock ids i
  apply Yields.after
  apply (hsituated.workload m.role (p := s.page i) rfl).bind
  rintro _ t ⟨rfl, rfl⟩
  split
  · apply (hsituated.setWorkload m.role _ (p := t.page i) rfl).bind
    intro _ u hu
    apply (report_yields _).mono
    intro _ u' hu'
    exact ⟨fun w => { w with running := false, queue := w.queue.close }, fun _ hw => hw,
      hu'.trans hu⟩
  · exact yields_pure.mpr (sets_self m.role t)

theorem Sets.store {role : Role} (h : Sets i role s t) : (t.site i).store = (s.site i).store := by
  obtain ⟨f, -, ht⟩ := h
  rw [ht, Site.store_update]

theorem Works.runs (h : Works roster i s t) : Runs roster i s t := by
  induction h with
  | done => exact .done _
  | call clock _ hx ih => exact ih.call clock hx
  | round role clock send _ _ ih ihsend => exact ih.round role clock send ihsend
  | start role clock _ ih => exact ih.elsewhere (start_sets _).store
  | stop role clock _ ih => exact ih.elsewhere (stop_sets _).store
  | elsewhere _ he ih => exact ih.elsewhere (congrArg Site.store he)

theorem Works.tallied (h : Works roster i s t) (hs : (s.site i).Tallied) :
    (t.site i).Tallied := by
  have hQ := Site.enduring_tallied
  have sets {role : Role} {t u : Timed n} (hu : Sets i role t u) (ht : (t.site i).Tallied) :
      (u.site i).Tallied := by
    obtain ⟨f, hf, hu⟩ := hu
    rw [hu]
    exact hQ.update role hf ht
  induction h with
  | done => exact hs
  | call clock _ hx ih => exact (serves_frees hQ hx (ih hs)).kept
  | round role clock send _ hsend ih ihsend =>
    have hfrees (message : RemoteMessage) (u : Timed n) (hu : (u.site i).Tallied) :
        Frees i Site.Tallied u ((send message).after u) :=
      ⟨ihsend message u hu, (hsend message u).runs.frees.leases⟩
    exact (runOnce_frees hQ hfrees _ clock roster.ids (ih hs)).kept
  | start role clock _ ih => exact sets (start_sets _) (ih hs)
  | stop role clock _ ih => exact sets (stop_sets _) (ih hs)
  | elsewhere _ he ih =>
    rw [he]
    exact ih hs

end Work

end Timed

end ContractNegotiation
