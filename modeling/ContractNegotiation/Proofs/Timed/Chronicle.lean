import ContractNegotiation.Proofs.Manager.Alike
import ContractNegotiation.Proofs.Timed.Commands

namespace ContractNegotiation

open ContractNegotiation.Action Negotiation

/-- A connector, what it has sent and what it has stored, oldest first. Messages count when they are
handed to the dispatcher, whatever becomes of them. -/
structure Chronicle (n : Nat) where
  timed : Timed n
  sent : List RemoteMessage := []
  written : List Negotiation := []

namespace Chronicle

variable {n : Nat} {α : Type}

def site (s : Chronicle n) (i : Fin n) : Site := s.timed.site i

def page (s : Chronicle n) (i : Fin n) : Page := ⟨s.site i, s.sent, s.written⟩

def put (s : Chronicle n) (timed : Timed n) : Chronicle n := { s with timed }

def save (clock : Nat → Instant) (ids : Nat → String) (i : Fin n) (record : Negotiation)
    (holder : String) : Action (Chronicle n) (Except StoreError Negotiation) := do
  let r ← .within timed put ((Timed.environment clock ids i).save record holder)
  modify fun s => { s with written := s.written ++ r.toOption.toList }
  pure r

def environment (clock : Nat → Instant) (ids : Nat → String) (i : Fin n) :
    Environment (Chronicle n) :=
  { (Timed.environment clock ids i).within timed put with save := save clock ids i }

def send (dispatch : Transport (Timed n)) : Transport (Chronicle n) := fun message => do
  modify fun s => { s with sent := s.sent ++ [message] }
  .within timed put (dispatch message)

variable {clock : Nat → Instant} {ids : Nat → String} {i : Fin n} {s t u : Chronicle n}
  {m : Manager} {dispatch : Transport (Timed n)}

theorem within_yields {x : Action (Timed n) α} {R : α → Timed n → Prop}
    (h : Yields x s.timed R) :
    Yields (within timed put x) s fun a t => t = s.put t.timed ∧ R a t.timed := by
  obtain ⟨a, t, hx, ht⟩ := h
  exact ⟨a, s.put t, by simp only [within, hx], rfl, ht⟩

section Alike

def Carries (P : List RemoteMessage → Prop) (s : Chronicle n) (t : Timed n) : Prop :=
  s.timed = t ∧ P s.sent

theorem within_alike (P : List RemoteMessage → Prop) (x : Action (Timed n) α)
    {S : α → α → Prop} (hs : ∀ a, S a a) : Alike (Carries P) S (within timed put x) x := by
  rintro s _ ⟨rfl, hp⟩
  simp only [within]
  cases x s.timed with
  | ok a t => exact ⟨hs a, rfl, hp⟩
  | error fault t => exact ⟨rfl, rfl, hp⟩

theorem save_alike (P : List RemoteMessage → Prop) (v : Negotiation) (holder : String) :
    Alike (Carries P) Eq (save clock ids i v holder)
      ((Timed.environment clock ids i).save v holder) := by
  rintro s _ ⟨rfl, hp⟩
  simp only [save, within, Bind.bind, EStateM.bind]
  cases (Timed.environment clock ids i).save v holder s.timed with
  | ok r t => exact ⟨rfl, rfl, hp⟩
  | error fault t => exact ⟨rfl, rfl, hp⟩

theorem environment_alike (clock : Nat → Instant) (ids : Nat → String) (i : Fin n) (m : Manager)
    (P : List RemoteMessage → Prop) :
    (environment clock ids i).Alike m (fun _ => True) (fun _ => True) (fun _ => True) False
      (Carries P) (Timed.environment clock ids i) where
  now := within_alike P (Timed.environment clock ids i).now fun _ => rfl
  freshId := within_alike P (Timed.environment clock ids i).freshId fun _ => ⟨rfl, trivial⟩
  report notice := within_alike P ((Timed.environment clock ids i).report notice) fun _ => rfl
  report_any h := h.elim
  find id := within_alike P ((Timed.environment clock ids i).find id) fun _ =>
    ⟨rfl, fun _ _ => trivial, .inl rfl⟩
  findByCorrelation id _ := within_alike P ((Timed.environment clock ids i).findByCorrelation id)
    fun _ => ⟨rfl, fun _ _ => trivial⟩
  save_first v _ _ _ := save_alike P v ""
  save v holder _ _ := save_alike P v holder
  lease state := by
    rintro s _ ⟨rfl, hp⟩
    have hlease : Yields ((Timed.environment clock ids i).lease state m.role m.options.batchSize
        m.leaseHolder) s.timed _ := Timed.lease_yields ..
    obtain ⟨ns, t, hx, store, hl, -⟩ := hlease
    have hs : (environment clock ids i).lease state m.role m.options.batchSize m.leaseHolder s =
        .ok ns (s.put t) := by
      simp only [environment, Environment.within, within, hx]
    rw [hs, hx]
    exact ⟨⟨rfl, fun v hv => ⟨trivial, (Store.leases_of_leaseNext hl).role v hv⟩⟩, rfl, hp⟩
  breakLease id _ :=
    within_alike P ((Timed.environment clock ids i).breakLease id m.leaseHolder) fun _ => rfl
  workload := within_alike P ((Timed.environment clock ids i).workload m.role) fun _ => rfl
  setWorkload w :=
    within_alike P ((Timed.environment clock ids i).setWorkload m.role w) fun _ => rfl

theorem drainCommands_yields {R : Nat → Timed n → Prop}
    (h : Yields (m.drainCommands (Timed.environment clock ids i)) s.timed R) :
    Yields (m.drainCommands (environment clock ids i)) s fun k t =>
      t.sent = s.sent ∧ R k t.timed := by
  have halike := Manager.drainCommands_alike (environment_alike clock ids i m (· = s.sent))
  apply (halike.yields ⟨rfl, rfl⟩ h).mono
  rintro k t ⟨_, _, rfl, ⟨rfl, hsent⟩, hr⟩
  exact ⟨hsent, hr⟩

end Alike

section Operations

theorem page_of_site {site : Site} {timed : Timed n} (ht : t = s.put timed)
    (h : timed.site i = site) : t.page i = { s.page i with site } := by
  rw [ht, ← h]
  rfl

theorem save_yields (v : Negotiation) (holder : String) :
    Yields ((environment clock ids i).save v holder) s fun r t =>
      match (s.site i).store.save v holder (clock s.timed.readings) with
      | .error error => r = .error error ∧ t.page i = s.page i
      | .ok (w, store) => r = .ok w ∧ t.page i = (s.page i).save w store := by
  have hsaved : Yields ((Timed.environment clock ids i).save v holder) s.timed _ :=
    Timed.save_yields v holder
  obtain ⟨r, t, hx, hr⟩ := hsaved
  have hs : save clock ids i v holder s =
      .ok r { s with timed := t, written := s.written ++ r.toOption.toList } := by
    simp only [save, within, Bind.bind, EStateM.bind, hx]
    rfl
  refine ⟨r, _, hs, ?_⟩
  change match (s.timed.site i).store.save v holder (clock s.timed.readings) with
    | .error error => _
    | .ok (w, store) => _
  cases hsave : (s.timed.site i).store.save v holder (clock s.timed.readings) with
  | error error =>
    simp only [hsave] at hr
    obtain ⟨rfl, ht⟩ := hr
    refine ⟨rfl, ?_⟩
    simp [page, site, ht, Except.toOption]
  | ok saved =>
    simp only [hsave] at hr
    obtain ⟨rfl, ht⟩ := hr
    refine ⟨rfl, ?_⟩
    simp [page, site, ht, Except.toOption, Page.save]

theorem situated (clock : Nat → Instant) (ids : Nat → String) (i : Fin n) :
    (environment clock ids i).Situated (fun s => clock s.timed.readings) fun p s =>
      s.page i = p where
  now h := ⟨_, _, rfl, rfl, h⟩
  freshId h := ⟨_, _, rfl, h⟩
  report _ h := ⟨_, _, rfl, h⟩
  find id h := ⟨_, _, rfl, congrArg (fun p : Page => p.site.store.find? id) h, h⟩
  save v holder h := by
    subst h
    exact save_yields v holder
  lease {p s} state role batch holder h := by
    subst h
    have hlease : Yields ((Timed.environment clock ids i).lease state role batch holder) s.timed
      _ := Timed.lease_yields ..
    apply (within_yields hlease).mono
    rintro vs t ⟨ht, store, hl, hsite⟩
    exact ⟨store, hl, page_of_site ht hsite⟩
  breakLease {p s} id holder h := by
    subst h
    have hbreak : Yields ((Timed.environment clock ids i).breakLease id holder) s.timed _ :=
      Timed.breakLease_yields ..
    apply (within_yields hbreak).mono
    rintro _ t ⟨ht, hsite⟩
    exact page_of_site ht hsite
  workload role h := ⟨_, _, rfl, congrArg (fun p : Page => p.site.workload role) h, rfl⟩
  setWorkload {p s} role w h := by
    subst h
    refine ⟨_, _, rfl, page_of_site rfl ?_⟩
    exact (Network.site_setSite s.timed.network i i _).trans (if_pos rfl)

theorem send_posts (hback : Timed.NoCallback i dispatch) :
    Page.Posts (fun p s => s.page i = p) (send dispatch) := by
  rintro message _ s rfl
  have hsite := hback message s.timed
  have hs : send dispatch message s =
      within timed put (dispatch message) { s with sent := s.sent ++ [message] } := rfl
  unfold Action.after at hsite ⊢
  rw [hs, within]
  cases hx : dispatch message s.timed <;> simp only [hx] at hsite ⊢
  all_goals exact page_of_site rfl hsite

theorem outcome_send (message : RemoteMessage) (s : Chronicle n) :
    (send dispatch message).outcome s = (dispatch message).outcome s.timed := by
  have hs : send dispatch message s =
      within timed put (dispatch message) { s with sent := s.sent ++ [message] } := rfl
  rw [outcome, outcome, hs, within]
  cases dispatch message s.timed <;> rfl

end Operations

end Chronicle

end ContractNegotiation
