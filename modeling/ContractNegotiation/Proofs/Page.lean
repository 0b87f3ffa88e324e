import ContractNegotiation.Proofs.Lending
import ContractNegotiation.Proofs.Manager.Round

/-! What a manager does to one connector, said once for every environment that shows it: its site,
what it has sent and what it has stored. -/

namespace ContractNegotiation

open ContractNegotiation.Action Negotiation

structure Page where
  site : Site
  sent : List RemoteMessage := []
  written : List Negotiation := []

namespace Page

def update (p : Page) (role : Role) (f : Workload → Workload) : Page :=
  { p with site := p.site.update role f }

def release (p : Page) (now : Instant) (holder id : String) : Page :=
  { p with site := p.site.release now holder id }

def post (p : Page) (message : RemoteMessage) : Page := { p with sent := p.sent ++ [message] }

def save (p : Page) (w : Negotiation) (store : Store) : Page :=
  { p with site := { p.site with store }, written := p.written ++ [w] }

def record (p : Page) (role : Role) (w : Negotiation) (store : Store) : Page :=
  (p.save w store).update role (·.clearRetries w.id)

def conclude (p : Page) (m : Manager) (now : Instant) (next : Negotiation) : Page :=
  match p.site.store.save next m.leaseHolder now with
  | .ok (w, store) => p.record m.role w store
  | .error _ => p

theorem site_conclude (p : Page) (m : Manager) (now : Instant) (next : Negotiation) :
    (p.conclude m now next).site = p.site.conclude m.role now m.leaseHolder next := by
  unfold Page.conclude Site.conclude
  cases p.site.store.save next m.leaseHolder now <;> rfl

structure Resembles (p : Page) (role : Role) (q : Page) : Prop where
  records : q.site.store.records = p.site.store.records
  workload : q.site.workload role = p.site.workload role
  sent : q.sent = p.sent
  written : q.written = p.written

variable {p q r : Page} {role : Role}

theorem Resembles.refl (p : Page) (role : Role) : p.Resembles role p := ⟨rfl, rfl, rfl, rfl⟩

theorem Resembles.trans (h : p.Resembles role q) (h' : q.Resembles role r) : p.Resembles role r :=
  ⟨h'.records.trans h.records, h'.workload.trans h.workload, h'.sent.trans h.sent,
    h'.written.trans h.written⟩

theorem Resembles.find? (h : p.Resembles role q) (id : String) :
    q.site.store.find? id = p.site.store.find? id := by
  simp only [Store.find?, h.records]

theorem Resembles.isFree (h : p.Resembles role q) (now : Instant) :
    q.site.isFree role now = p.site.isFree role now := by
  funext v
  simp only [Site.isFree, h.workload]

theorem resembles_release (p : Page) (role : Role) (now : Instant) (holder id : String) :
    p.Resembles role (p.release now holder id) :=
  ⟨Site.records_release holder, Site.workload_release holder id role, rfl, rfl⟩

end Page

/-- The state `s` shows the page `p` if `shows p s`. What an environment does to a state it does to
its page, at the time of the state. -/
structure Environment.Situated {σ : Type} (env : Environment σ) (time : σ → Instant)
    (shows : Page → σ → Prop) : Prop where
  now {p : Page} {s : σ} : shows p s → Yields env.now s fun now t => now = time s ∧ shows p t
  freshId {p : Page} {s : σ} : shows p s → Yields env.freshId s fun _ t => shows p t
  report {p : Page} {s : σ} (notice : Notice) :
    shows p s → Yields (env.report notice) s fun _ t => shows p t
  find {p : Page} {s : σ} (id : String) :
    shows p s → Yields (env.find id) s fun found t => found = p.site.store.find? id ∧ shows p t
  save {p : Page} {s : σ} (v : Negotiation) (holder : String) :
    shows p s → Yields (env.save v holder) s fun r t =>
      match p.site.store.save v holder (time s) with
      | .error error => r = .error error ∧ shows p t
      | .ok (w, store) => r = .ok w ∧ shows (p.save w store) t
  lease {p : Page} {s : σ} (state : State) (role : Role) (batch : Nat) (holder : String) :
    shows p s → Yields (env.lease state role batch holder) s fun vs t => ∃ store,
      p.site.store.leaseNext state.code (some role) batch holder (time s) = (vs, store) ∧
        shows { p with site := { p.site with store } } t
  breakLease {p : Page} {s : σ} (id holder : String) :
    shows p s → Yields (env.breakLease id holder) s fun _ t =>
      shows (p.release (time s) holder id) t
  workload {p : Page} {s : σ} (role : Role) :
    shows p s → Yields (env.workload role) s fun w t => w = p.site.workload role ∧ t = s
  setWorkload {p : Page} {s : σ} (role : Role) (w : Workload) :
    shows p s → Yields (env.setWorkload role w) s fun _ t =>
      shows { p with site := p.site.setWorkload role w } t

namespace Environment.Situated

variable {σ : Type} {env : Environment σ} {time : σ → Instant} {shows : Page → σ → Prop}
  (h : env.Situated time shows) (m : Manager) {p q : Page} {s : σ}
include h

section Operations

variable (hp : shows p s)
include hp

theorem update_yields (role : Role) (f : Workload → Workload) :
    Yields (env.update role f) s fun _ t => shows (p.update role f) t := by
  apply (h.workload role hp).bind
  rintro _ t ⟨rfl, rfl⟩
  exact h.setWorkload role _ hp

theorem transition_yields (v : Negotiation) (event : Event) :
    Yields (env.transition v event) s fun outcome t => shows p t ∧
      ∃ agreementId, (v.drawsId event = false → agreementId = "") ∧
        outcome = v.transition event (time s) agreementId := by
  apply (h.now hp).bind
  rintro _ t ⟨rfl, ht⟩
  dsimp only
  split
  · rename_i hd
    apply (h.freshId ht).bind
    intro id u hu
    exact yields_pure.mpr ⟨hu, id, fun hn => by simp [hd] at hn, rfl⟩
  · exact yields_pure.mpr ⟨ht, "", fun _ => rfl, rfl⟩

theorem persist_yields (v next : Negotiation) (holder : String) :
    Yields (m.persist env v next holder) s fun r t =>
      match p.site.store.save next holder (time s) with
      | .error error => r = .error error ∧ shows p t
      | .ok (w, store) => r = .ok w ∧ shows (p.record m.role w store) t := by
  apply (h.save next holder hp).bind
  intro r t hr
  split at hr
  · obtain ⟨rfl, ht⟩ := hr
    exact yields_pure.mpr ⟨rfl, ht⟩
  · rename_i w store _
    obtain ⟨rfl, ht⟩ := hr
    apply (h.update_yields ht m.role (·.clearRetries w.id)).bind
    intro _ u hu
    apply (h.report _ hu).bind
    intro _ u' hu'
    exact yields_pure.mpr ⟨rfl, hu'⟩

theorem release_yields (id : String) : Yields (m.release env id) s fun _ t =>
    shows (p.release (time s) m.leaseHolder id) t := by
  apply (h.breakLease id m.leaseHolder hp).bind
  rintro (error | _) t ht
  · exact h.report _ ht
  · exact yields_pure.mpr ht

theorem conclude_yields (v next : Negotiation) : Yields (m.conclude env v next) s fun _ t =>
    shows (p.conclude m (time s) next) t := by
  apply (h.persist_yields m hp v next m.leaseHolder).bind
  intro r t hr
  split at hr
  · rename_i error hsave
    obtain ⟨rfl, ht⟩ := hr
    simpa only [Page.conclude, hsave] using h.report _ ht
  · rename_i w store hsave
    obtain ⟨rfl, ht⟩ := hr
    simp only [Page.conclude, hsave]
    exact yields_pure.mpr ht

theorem concludeFailed_yields {v : Negotiation} (hv : v.state.isTerminal = false)
    (cause : String) : Yields (m.concludeFailed env v cause) s fun _ t => ∃ u, shows p u ∧
      shows (p.conclude m (time u)
        { v.enter .error (time s) with errorDetail := cause }) t := by
  apply (h.transition_yields hp v (.fail cause)).bind
  rintro _ u ⟨hu, agreementId, -, rfl⟩
  rw [next_fail hv]
  apply (h.conclude_yields m hu v _).mono
  intro _ t ht
  exact ⟨u, hu, ht⟩

theorem recordFailure_yields (id : String) : Yields (m.recordFailure env id) s fun r t =>
    r.1 = ((p.site.workload m.role).retries.recordFailure m.options.backoff id (time s)).1 ∧
      shows (p.update m.role fun w =>
        { w with retries := (w.retries.recordFailure m.options.backoff id (time s)).2 }) t := by
  apply (h.now hp).bind
  rintro _ t ⟨rfl, ht⟩
  apply (h.workload m.role ht).bind
  rintro _ _ ⟨rfl, rfl⟩
  apply (h.setWorkload m.role _ ht).bind
  intro _ u hu
  exact yields_pure.mpr ⟨rfl, hu⟩

theorem takeCommands_yields : Yields (m.takeCommands env) s fun batch t =>
    batch = (p.site.workload m.role).queue.waiting.take m.options.commandBatchSize ∧
      shows (p.update m.role (·.mapQueue fun q => (q.dequeue m.options.commandBatchSize).2)) t := by
  apply (h.workload m.role hp).bind
  rintro _ _ ⟨rfl, rfl⟩
  apply (h.setWorkload m.role _ hp).bind
  intro _ t ht
  exact yields_pure.mpr ⟨rfl, ht⟩

theorem applyCommand_yields (c : QueuedCommand) : Yields (m.applyCommand env c) s fun _ t =>
    ∃ asked saved written,
      shows ⟨p.site.obey m c (time asked) (time saved), p.sent, written⟩ t := by
  apply (h.find c.command.target hp).bind
  rintro _ t ⟨rfl, ht⟩
  unfold Site.obey
  cases p.site.store.find? c.command.target with
  | none => exact (h.report _ ht).mono fun _ _ hu => ⟨t, t, _, hu⟩
  | some v =>
    dsimp only
    split
    · exact (h.report _ ht).mono fun _ _ hu => ⟨t, t, _, hu⟩
    · apply (h.transition_yields ht v c.command.event).bind
      rintro outcome u ⟨hu, agreementId, hdraws, ho⟩
      rw [hdraws (by cases c.command <;> rfl)] at ho
      cases outcome with
      | rejected =>
        apply (h.report _ hu).mono
        intro _ u' hu'
        refine ⟨t, t, p.written, ?_⟩
        rw [← ho]
        exact hu'
      | unchanged =>
        refine yields_pure.mpr ⟨t, t, p.written, ?_⟩
        rw [← ho]
        exact hu
      | applied next message =>
        apply (h.persist_yields m hu v next "").bind
        intro r u' hr
        split at hr
        · rename_i error hsave
          obtain ⟨rfl, hu'⟩ := hr
          dsimp only
          split
          · rename_i hlost
            apply (h.report _ hu').bind
            intro _ t' ht'
            apply (h.update_yields ht' m.role _).mono
            intro _ t'' ht''
            refine ⟨t, u, p.written, ?_⟩
            simp only [← ho, hsave, if_pos hlost]
            exact ht''
          · rename_i hkept
            apply (h.report _ hu').mono
            intro _ t' ht'
            refine ⟨t, u, p.written, ?_⟩
            simp only [← ho, hsave, if_neg hkept]
            exact ht'
        · rename_i w store hsave
          obtain ⟨rfl, hu'⟩ := hr
          apply (h.update_yields hu' m.role _).mono
          intro _ t' ht'
          refine ⟨t, u, p.written ++ [w], ?_⟩
          simp only [← ho, hsave]
          exact ht'

end Operations

end Environment.Situated

end ContractNegotiation
