import ContractNegotiation.Proofs.Timed.Chronicle

namespace ContractNegotiation

open ContractNegotiation.Action Negotiation

namespace Store

variable {s t : Store} {m : Manager} {v : Negotiation} {vs ws : List Negotiation}

structure Held (s : Store) (m : Manager) (vs : List Negotiation) : Prop where
  tidy : s.Tidy
  named : s.find? "" = none
  lending : s.Lending m vs

theorem Clear.held (h : s.Clear m) : s.Held m [] := ⟨h.tidy, h.named, h.lending⟩

theorem Held.clear (h : s.Held m []) : s.Clear m := ⟨h.tidy, h.named, h.lending⟩

theorem Held.perm (h : s.Held m vs) (hp : ws.Perm vs) : s.Held m ws :=
  ⟨h.tidy, h.named, h.lending.perm hp⟩

theorem Held.lends (h : s.Held m (v :: vs)) : s.Lends m v :=
  h.lending.lends v (List.mem_cons_self ..)

theorem Held.of_records (h : s.Held m ws) (ht : t.records = s.records) (hl : t.Lending m vs) :
    t.Held m vs := by
  refine ⟨?_, ?_, hl⟩
  · simpa only [Tidy, ht] using h.tidy
  · simpa only [find?, ht] using h.named

end Store

namespace Page

variable {p q : Page} {m : Manager} {v : Negotiation} {vs : List Negotiation} {e : Ending}

theorem Turns.held (h : p.Turns m v e q) (hp : p.site.store.Held m (v :: vs)) :
    q.site.store.Held m vs := by
  refine ⟨?_, ?_, hp.lending.settles h.settles⟩
  · unfold Store.Tidy
    rw [h.names]
    exact hp.tidy
  · rw [h.settles.find?, if_neg hp.lends.id.symm, hp.named]

structure Carries (m : Manager) (I : List State → List Negotiation → Page → Prop) : Prop where
  perm : ∀ rest vs ws p, I rest vs p → ws.Perm vs → I rest ws p
  poll : ∀ state rest now b p q, I (state :: rest) [] p → p.site.store.Clear m →
    state ∈ State.processable m.role → p.Polls m state now b q → I rest b.due q
  turn : ∀ rest v vs p q begun counted failed agreementId answer, I rest (v :: vs) p →
    p.site.store.Held m (v :: vs) →
    p.Turns m v (m.ending v (p.site.tries m.role v.id) begun counted failed agreementId answer) q →
    I rest vs q

end Page

namespace Chronicle

variable {n : Nat} {m : Manager} {clock : Nat → Instant} {ids : Nat → String} {i : Fin n}
  {dispatch : Transport (Timed n)} {s t u : Chronicle n} {vs : List Negotiation}
  {I : List State → List Negotiation → Page → Prop}

theorem processLeased_answers (v : Negotiation) (s : Chronicle n) :
    Yields (m.processLeased (environment clock ids i) (send dispatch) v) s fun _ _ => True :=
  Manager.processLeased_answers
    (fun notice t => ((situated clock ids i).report notice (rfl : t.page i = _)).mono
      fun _ _ _ => trivial)
    (fun id t => ((situated clock ids i).release_yields m (rfl : t.page i = _) id).mono
      fun _ _ _ => trivial) v s

section Poll

variable (hI : Page.Carries m I) (hback : Timed.NoCallback i dispatch)
include hI hback

theorem processLeased_carries {rest : List State} {v : Negotiation}
    (h : (s.site i).store.Held m (v :: vs)) (hs : I rest (v :: vs) (s.page i)) :
    Yields (m.processLeased (environment clock ids i) (send dispatch) v) s fun _ t =>
      (t.site i).store.Held m vs ∧ I rest vs (t.page i) := by
  apply ((situated clock ids i).processLeased_turns h.lends (send_posts hback) rfl).mono
  rintro _ t ⟨e, _, rfl, ⟨agreementId, u, counted, failed, -, -, rfl⟩, ht⟩
  exact ⟨ht.held h, hI.turn rest v vs _ _ _ _ _ _ _ hs h ht⟩

theorem processState_carries {state : State} {rest : List State}
    (hstate : state ∈ State.processable m.role) (h : (s.site i).store.Clear m)
    (hs : I (state :: rest) [] (s.page i)) :
    Yields (m.processState (environment clock ids i) (send dispatch) state) s fun _ t =>
      (t.site i).store.Clear m ∧ I rest [] (t.page i) := by
  obtain ⟨b, _, t, hb⟩ := (situated clock ids i).poll_begun (m := m) rfl state
  obtain rfl := hb.shown
  have hheld : (t.site i).store.Held m b.due :=
    h.held.of_records hb.records (hb.lending h hstate)
  unfold Yields
  rw [hb.goesOn]
  apply (Manager.processDue_keeps (I := fun vs (t : Chronicle n) =>
    (t.site i).store.Held m vs ∧ I rest vs (t.page i)) processLeased_answers
    (fun vs ws _ ht hp => ⟨ht.1.perm hp, hI.perm rest vs ws _ ht.2 hp⟩)
    (fun _ _ _ ht => processLeased_carries hI hback ht.1 ht.2)
    ⟨hheld, hI.poll state rest _ b _ _ hs h hstate hb.toPolls⟩).bind
  rintro _ u ⟨hu, hdone⟩
  exact yields_pure.mpr ⟨hu.clear, hdone⟩

theorem polls_carry {states : List State} (hstates : ∀ state ∈ states,
      state ∈ State.processable m.role) (h : (s.site i).store.Clear m)
    (hs : I states [] (s.page i)) :
    Yields (total (m.processState (environment clock ids i) (send dispatch)) states) s fun _ t =>
      (t.site i).store.Clear m ∧ I [] [] (t.page i) := by
  have hstep (state : State) (rest : List State) (t : Chronicle n)
      (ht : (∀ x ∈ state :: rest, x ∈ State.processable m.role) ∧ (t.site i).store.Clear m ∧
        I (state :: rest) [] (t.page i)) :
      Yields (m.processState (environment clock ids i) (send dispatch) state) t fun _ u =>
        (∀ x ∈ rest, x ∈ State.processable m.role) ∧ (u.site i).store.Clear m ∧
          I rest [] (u.page i) := by
    obtain ⟨hmem, hclear, hcarried⟩ := ht
    rw [List.forall_mem_cons] at hmem
    apply (processState_carries hI hback hmem.1 hclear hcarried).mono
    intro _ u hu
    exact ⟨hmem.2, hu⟩
  apply (total_yields (fun rest (t : Chronicle n) => (∀ x ∈ rest, x ∈ State.processable m.role) ∧
    (t.site i).store.Clear m ∧ I rest [] (t.page i)) hstep ⟨hstates, h, hs⟩).mono
  rintro _ t ⟨-, ht⟩
  exact ht

end Poll

theorem drainCommands_clear (hids : ∀ k, ids k ≠ "") (hback : Timed.NoCallback i dispatch)
    (h : (s.site i).store.Clear m) : Yields (m.drainCommands (environment clock ids i)) s
      fun _ t => (t.site i).store.Clear m ∧ t.sent = s.sent := by
  have hdrain : Yields (m.drainCommands (Timed.environment clock ids i)) s.timed _ :=
    Timed.drainCommands_clear hids hback h
  apply (drainCommands_yields hdrain).mono
  rintro _ t ⟨hsent, ⟨hclear, -⟩, -⟩
  exact ⟨hclear, hsent⟩

theorem runOnce_carries {R : Chronicle n → Prop} (hI : Page.Carries m I)
    (hback : Timed.NoCallback i dispatch)
    (hdrain : Yields (m.drainCommands (environment clock ids i)) s fun _ t =>
      (t.site i).store.Clear m ∧ R t)
    (h : R ((m.drainCommands (environment clock ids i)).after s) →
      I (State.processable m.role) []
        (((m.drainCommands (environment clock ids i)).after s).page i)) :
    Yields (m.runOnce (environment clock ids i) (send dispatch)) s fun _ t =>
      R ((m.drainCommands (environment clock ids i)).after s) ∧
        (t.site i).store.Clear m ∧ I [] [] (t.page i) := by
  obtain ⟨hx, hclear, hr⟩ := Yields.eq_ok (x := m.drainCommands (environment clock ids i)) hdrain
  have hdrained : Yields (m.drainCommands (environment clock ids i)) s fun _ t =>
      t = (m.drainCommands (environment clock ids i)).after s := ⟨_, _, hx, rfl⟩
  apply hdrained.bind
  rintro k _ rfl
  apply (polls_carry hI hback (fun _ hstate => hstate) hclear (h hr)).bind
  intro _ t ht
  exact yields_pure.mpr ⟨hr, ht⟩

end Chronicle

end ContractNegotiation
