import ContractNegotiation.Proofs.Page

namespace ContractNegotiation

open ContractNegotiation.Action Negotiation

namespace Manager

structure Batch where
  leased : List Negotiation
  now : Instant
  due : List Negotiation
  deriving Inhabited

variable {σ : Type} (m : Manager) (env : Environment σ)

def sift (state : State) : Action σ Batch := do
  let leased ← env.lease state m.role m.options.batchSize m.leaseHolder
  let now ← env.now
  let due ← select (m.isDue env now) leased
  pure ⟨leased, now, due⟩

def order (due : List Negotiation) : List Negotiation :=
  if m.options.workers ≤ 1 ∨ due.length ≤ 1 then due
  else (deal (min m.options.workers due.length) due).flatten

theorem order_perm (due : List Negotiation) : (m.order due).Perm due := by
  unfold order
  split
  · exact .refl due
  · apply deal_perm
    omega

variable {m env} {send : Transport σ}

theorem processLeased_answers
    (hreport : ∀ notice s, Yields (env.report notice) s fun _ _ => True)
    (hrelease : ∀ id s, Yields (m.release env id) s fun _ _ => True) (v : Negotiation) (s : σ) :
    Yields (m.processLeased env send v) s fun _ _ => True := by
  apply ends_after.attempted.bind
  rintro (fault | settled) t -
  · apply (hreport _ t).bind
    intro _ u _
    exact hrelease v.id u
  · cases settled with
    | true => exact yields_pure.mpr trivial
    | false => exact hrelease v.id t

variable (hanswers : ∀ v s, Yields (m.processLeased env send v) s fun _ _ => True)
include hanswers

theorem processDue_eq (due : List Negotiation) :
    m.processDue env send due = each (m.processLeased env send) (m.order due) := by
  unfold processDue order
  split
  · rfl
  · exact eachThenRaise_eq_each hanswers _

theorem processDue_keeps {I : List Negotiation → σ → Prop} {due : List Negotiation} {s : σ}
    (perm : ∀ vs ws t, I vs t → ws.Perm vs → I ws t)
    (turn : ∀ v vs t, I (v :: vs) t →
      Yields (m.processLeased env send v) t fun _ u => I vs u) (h : I due s) :
    Yields (m.processDue env send due) s fun _ t => I [] t := by
  rw [processDue_eq hanswers]
  exact each_yields I turn (perm due _ s h (m.order_perm due))

end Manager

/-- What a poll takes from the page `p` at a time: the records that it leases, and the free ones
among them. It keeps the latter, and gives the others back. -/
structure Page.Polls (p : Page) (m : Manager) (state : State) (now : Instant) (b : Manager.Batch)
    (q : Page) : Prop extends p.Resembles m.role q where
  leased : ∃ store, p.site.store.leaseNext state.code (some m.role) m.options.batchSize
    m.leaseHolder now = (b.leased, store)
  due : b.due = b.leased.filter (p.site.isFree m.role b.now)
  lending : p.site.store.Clear m → state ∈ State.processable m.role →
    q.site.store.Lending m b.due

namespace Page

variable {p q : Page} {m : Manager} {state : State} {now : Instant} {b : Manager.Batch}

theorem Polls.offers (h : p.Polls m state now b q) (hclear : p.site.store.Clear m)
    (hstate : state ∈ State.processable m.role) {v : Negotiation} (hv : v ∈ b.leased) :
    p.site.store.Offers m state v := by
  obtain ⟨store, hl⟩ := h.leased
  exact hclear.offers_of_leaseNext hstate hl hv

theorem Polls.mem_due_iff (h : p.Polls m state now b q) {v : Negotiation} :
    v ∈ b.due ↔ v ∈ b.leased ∧ q.site.isFree m.role b.now v = true := by
  rw [h.due, h.isFree, List.mem_filter]

end Page

structure Manager.Sifts {σ : Type} (m : Manager) (env : Environment σ) (time : σ → Instant)
    (shows : Page → σ → Prop) (I : List Negotiation → σ → Prop) : Prop where
  perm : ∀ vs ws t, I vs t → ws.Perm vs → I ws t
  read : ∀ vs t, I vs t → Yields env.now t fun _ u => I vs u
  skip : ∀ v vs t q u, I (v :: vs) t → shows q t → q.site.isFree m.role (time u) v = false →
    Yields (m.release env v.id) t fun _ u => I vs u

/-- The turns of a poll that is begun in `s` are begun in `t`. The sift reads the clock also if
nothing has been leased. -/
structure Manager.Begins {σ : Type} (m : Manager) (env : Environment σ) (time : σ → Instant)
    (shows : Page → σ → Prop) (state : State) (p : Page) (s : σ) (b : Manager.Batch) (q : Page)
    (t : σ) : Prop extends p.Polls m state (time s) b q where
  judged : ∃ u, b.now = time u
  shown : shows q t
  sifted : ∃ t', shows q t' ∧ m.sift env state s = .ok b t' ∧ (b.leased ≠ [] → t' = t)
  goesOn : ∀ send, m.processState env send state s =
    (do m.processDue env send b.due
        pure b.due.length) t

theorem Manager.sifts_shown {σ : Type} {m : Manager} {env : Environment σ} {time : σ → Instant}
    {shows : Page → σ → Prop} (h : env.Situated time shows) :
    m.Sifts env time shows fun _ t => ∃ p, shows p t where
  perm _ _ _ h _ := h
  read _ _ := fun ⟨_, hp⟩ => (h.now hp).mono fun _ _ ht => ⟨_, ht.2⟩
  skip _ _ _ _ _ _ hq _ := (h.release_yields m hq _).mono fun _ _ ht => ⟨_, ht⟩

namespace Environment.Situated

variable {σ : Type} {env : Environment σ} {time : σ → Instant} {shows : Page → σ → Prop}
  (h : env.Situated time shows) {m : Manager} {p q : Page} {s : σ} {vs : List Negotiation}
  {I : List Negotiation → σ → Prop}
include h

theorem isDue_yields (hI : m.Sifts env time shows I) (hp : shows p s) (u : σ) (v : Negotiation)
    (hs : I (v :: vs) s) : Yields (m.isDue env (time u) v) s fun due t =>
      due = p.site.isFree m.role (time u) v ∧ I (if due then v :: vs else vs) t ∧
        ∃ q, shows q t ∧ p.Resembles m.role q ∧ (p.site.store.Lending m (v :: vs) →
          q.site.store.Lending m (if due then v :: vs else vs)) := by
  apply (h.workload m.role hp).bind
  rintro _ t ⟨rfl, rfl⟩
  have hfree := p.site.isFree_eq m.role (time u) v
  split
  · rename_i hskip
    rw [hskip] at hfree
    apply ((hI.skip v vs t p u hs hp hfree).and (h.release_yields m hp v.id)).bind
    rintro _ t' ⟨ht', hq⟩
    refine yields_pure.mpr ⟨hfree.symm, ht', _, hq, p.resembles_release _ _ _ _, fun hl => ?_⟩
    have hlends := hl.lends v (List.mem_cons_self ..)
    exact hl.settles (Site.settles_release hlends hlends.writes_nothing _)
  · rename_i hturn
    rw [Bool.not_eq_true] at hturn
    rw [hturn] at hfree
    exact yields_pure.mpr ⟨hfree.symm, hs, p, hp, .refl .., fun hl => hl⟩

theorem select_isDue_yields (hI : m.Sifts env time shows I) (hp : shows p s) (u : σ)
    (hs : I vs s) : Yields (Action.select (m.isDue env (time u)) vs) s fun due t =>
      due = vs.filter (p.site.isFree m.role (time u)) ∧ I due t ∧
        ∃ q, shows q t ∧ p.Resembles m.role q ∧
          (p.site.store.Lending m vs → q.site.store.Lending m due) := by
  let free := p.site.isFree m.role (time u)
  -- what is kept and what is still to be judged are together what is leased
  let J (kept rest : List Negotiation) (t : σ) : Prop :=
    kept ++ rest.filter free = vs.filter free ∧ I (kept ++ rest) t ∧
      ∃ q, shows q t ∧ p.Resembles m.role q ∧
        (p.site.store.Lending m vs → q.site.store.Lending m (kept ++ rest))
  have hstep (kept : List Negotiation) (v : Negotiation) (rest : List Negotiation) (t : σ)
      (ht : J kept (v :: rest) t) : Yields (m.isDue env (time u) v) t fun due t' =>
        J (if due then kept ++ [v] else kept) rest t' := by
    obtain ⟨hfilter, hleased, q, hq, hresembles, hlending⟩ := ht
    have hfirst : (v :: (kept ++ rest)).Perm (kept ++ v :: rest) := List.perm_middle.symm
    apply (h.isDue_yields hI hq u v (hI.perm _ _ t hleased hfirst)).mono
    rintro due t' ⟨hdue, hleased', r, hr, hresembles', hlending'⟩
    have hpart : (if due then v :: (kept ++ rest) else kept ++ rest).Perm
        ((if due then kept ++ [v] else kept) ++ rest) := by
      cases due
      · exact .refl _
      · simpa using List.perm_middle.symm
    have hfree : due = free v := hdue.trans (congrFun (hresembles.isFree (time u)) v)
    refine ⟨?_, hI.perm _ _ t' hleased' hpart.symm, r, hr, hresembles.trans hresembles',
      fun hl => (hlending' ((hlending hl).perm hfirst)).perm hpart.symm⟩
    rw [List.filter_cons, ← hfree] at hfilter
    cases due <;> simpa using hfilter
  have hstart : J [] vs s := ⟨rfl, hs, p, hp, .refl .., fun hl => hl⟩
  apply (select_yields J hstep hstart).mono
  intro due t ht
  simpa only [J, List.nil_append, List.filter_nil, List.append_nil] using ht

theorem poll_begins (hI : m.Sifts env time shows I) (hp : shows p s) (state : State)
    (hlease : Yields (env.lease state m.role m.options.batchSize m.leaseHolder) s I) :
    ∃ b q t, m.Begins env time shows state p s b q t ∧ I b.due t := by
  obtain ⟨vs, t, hleased, ht, store, hl, hshown⟩ :=
    hlease.and (h.lease state m.role m.options.batchSize m.leaseHolder hp)
  have hresembles : p.Resembles m.role { p with site := { p.site with store } } :=
    ⟨(Store.leases_of_leaseNext hl).records, Site.workload_store .., rfl, rfl⟩
  have hlending (hclear : p.site.store.Clear m) (hstate : state ∈ State.processable m.role) :
      store.Lending m vs := hclear.lending_of_leaseNext hstate hl
  obtain ⟨_, u, hnow, hu, rfl, hread⟩ := (hI.read vs t ht).and (h.now hshown)
  cases vs with
  | nil =>
    have hsift : m.sift env state s = .ok ⟨[], time t, []⟩ u := by
      simp only [Manager.sift, Bind.bind, EStateM.bind, hleased, hnow]
      rfl
    have hnone (send : Transport σ) : m.processDue env send [] = pure () :=
      if_pos (.inr (Nat.zero_le 1))
    refine ⟨_, _, t, ⟨⟨hresembles, ⟨store, hl⟩, rfl, hlending⟩, ⟨t, rfl⟩, hshown,
      ⟨u, hread, hsift, fun hne => absurd rfl hne⟩, fun send => ?_⟩, ht⟩
    simp only [Manager.processState, Bind.bind, EStateM.bind, hleased, hnone, List.isEmpty_nil,
      if_true]
    rfl
  | cons v vs =>
    obtain ⟨due, t', hselect, hdue, hkept, q, hq, hresembles', hlends⟩ :=
      h.select_isDue_yields hI hread t hu
    rw [hresembles.isFree] at hdue
    have hsift : m.sift env state s = .ok ⟨v :: vs, time t, due⟩ t' := by
      simp only [Manager.sift, Bind.bind, EStateM.bind, hleased, hnow, hselect]
      rfl
    refine ⟨_, q, t', ⟨⟨hresembles.trans hresembles', ⟨store, hl⟩, hdue,
      fun hclear hstate => hlends (hlending hclear hstate)⟩, ⟨t, rfl⟩, hq,
      ⟨t', hq, hsift, fun _ => rfl⟩, fun send => ?_⟩, hkept⟩
    simp only [Manager.processState, Bind.bind, EStateM.bind, hleased, hnow, hselect,
      List.isEmpty_cons, Bool.false_eq_true, if_false]

theorem poll_begun (hp : shows p s) (state : State) :
    ∃ b q t, m.Begins env time shows state p s b q t := by
  have hlease := h.lease state m.role m.options.batchSize m.leaseHolder hp
  obtain ⟨b, q, t, hb, -⟩ := h.poll_begins (Manager.sifts_shown h) hp state <| hlease.mono <| by
    rintro _ t ⟨_, -, ht⟩
    exact ⟨_, ht⟩
  exact ⟨b, q, t, hb⟩

theorem sift_yields (hp : shows p s) (state : State) : Yields (m.sift env state) s fun b t =>
    ∃ q, shows q t ∧ p.Polls m state (time s) b q := by
  obtain ⟨b, q, t, hb⟩ := h.poll_begun (m := m) hp state
  obtain ⟨u, hu, hsift, -⟩ := hb.sifted
  exact ⟨b, u, hsift, q, hu, hb.toPolls⟩

theorem processState_keeps {J : List Negotiation → σ → Prop} {send : Transport σ}
    (hI : m.Sifts env time shows I) (hp : shows p s) (state : State)
    (hlease : Yields (env.lease state m.role m.options.batchSize m.leaseHolder) s I)
    (hanswers : ∀ v s, Yields (m.processLeased env send v) s fun _ _ => True)
    (perm : ∀ vs ws t, J vs t → ws.Perm vs → J ws t)
    (turn : ∀ v vs t, J (v :: vs) t → Yields (m.processLeased env send v) t fun _ u => J vs u)
    (hfree : ∀ b q t, m.Begins env time shows state p s b q t → I b.due t → J b.due t) :
    Yields (m.processState env send state) s fun _ t => J [] t := by
  obtain ⟨b, q, t, hbegins, hkept⟩ := h.poll_begins hI hp state hlease
  unfold Yields
  rw [hbegins.goesOn]
  apply (Manager.processDue_keeps hanswers perm turn (hfree b q t hbegins hkept)).bind
  intro _ u hu
  exact yields_pure.mpr hu

end Environment.Situated

end ContractNegotiation
