import ContractNegotiation.Proofs.Connector
import ContractNegotiation.Proofs.Network.Turn

/-! A connector whose clock is read anew whenever the time matters: to a manager, and to the store
when it saves, leases or gives a lease back. Nothing is assumed of what the readings show. -/

namespace ContractNegotiation

open ContractNegotiation.Action

structure Timed (n : Nat) where
  network : Network n
  readings : Nat := 0

namespace Timed

variable {n : Nat}

def site (s : Timed n) (i : Fin n) : Site := s.network.site i

def put (s : Timed n) (network : Network n) : Timed n := { s with network }

def read (clock : Nat → Instant) (s : Timed n) : Timed n :=
  ⟨{ s.network with now := clock s.readings }, s.readings + 1⟩

def timely {α : Type} (clock : Nat → Instant) (x : Action (Network n) α) : Action (Timed n) α := do
  modify (read clock)
  .within network put x

def environment (clock : Nat → Instant) (ids : Nat → String) (i : Fin n) :
    Environment (Timed n) :=
  { (Network.environment ids i).within network put with
    now := timely clock (Network.environment ids i).now
    save := fun record holder => timely clock (Network.save i record holder)
    lease := fun s role batch holder => timely clock (Network.lease i s role batch holder)
    breakLease := fun id holder => timely clock (Network.breakLease i id holder) }

def focus (i : Fin n) : Focus (Timed n) Unit where
  store s := (s.site i).store
  issued s := s.network.issued
  outside _ := ()

variable {α : Type} {clock : Nat → Instant} {ids : Nat → String} {i : Fin n} {s t u : Timed n}

theorem ends_timely {x : Action (Network n) α} {Q : Except Fault α → Timed n → Prop} :
    Ends (timely clock x) s Q ↔
      Ends x { s.network with now := clock s.readings } fun r net => Q r ((read clock s).put net) :=
  ends_bind.trans ends_within

theorem confined_put {net : Network n} (h : (Network.focus i).Confined s.network net) :
    (focus i).Confined s (s.put net) := ⟨h.issued, rfl⟩

theorem keeps_put {net : Network n} (h : (Network.focus i).Keeps s.network net) :
    (focus i).Keeps s (s.put net) := ⟨confined_put h.toConfined, h.store⟩

theorem confined_read {net : Network n}
    (h : (Network.focus i).Confined (read clock s).network net) :
    (focus i).Confined s ((read clock s).put net) := ⟨h.issued, rfl⟩

theorem environment_lawful (clock : Nat → Instant) (ids : Nat → String) (i : Fin n) :
    (environment clock ids i).Lawful ids (focus i) := by
  have hlaw := Network.environment_lawful ids i
  have quiet {α : Type} {x : Action (Network n) α} (hx : (Network.focus i).Quiet x) :
      (focus i).Quiet (.within network put x) := fun s =>
    ends_within.mpr ((hx s.network).mono fun _ _ h => ⟨keeps_put h.1, h.2⟩)
  have harmless {α : Type} {x : Action (Network n) α} (hx : (Network.focus i).Harmless x) :
      (focus i).Harmless (.within network put x) := fun s =>
    ends_within.mpr ((hx s.network).mono fun _ _ => keeps_put)
  exact {
    now := fun s => ends_timely.mpr ⟨⟨confined_read (.refl _), rfl⟩, _, rfl⟩
    freshId := fun s => ends_within.mpr ((hlaw.freshId s.network).mono fun _ _ h =>
      ⟨keeps_put h.1, h.2⟩)
    report := fun notice => quiet (hlaw.report notice)
    find := fun id s => ends_within.mpr ((hlaw.find id s.network).mono fun _ _ h =>
      ⟨keeps_put h.1, h.2⟩)
    findByCorrelation := fun id s => ends_within.mpr ((hlaw.findByCorrelation id s.network).mono
      fun _ _ h => ⟨keeps_put h.1, h.2⟩)
    findAgreement := fun id => harmless (hlaw.findAgreement id)
    select := fun query => harmless (hlaw.select query)
    save := fun v holder s => ends_timely.mpr ((hlaw.save v holder _).mono fun _ _ h =>
      ⟨confined_read h.1, h.2⟩)
    save_next := fun v w holder s hid hc hf hv hl =>
      ends_timely.mpr (hlaw.save_next v w holder _ hid hc hf hv hl)
    lease := fun state role batch holder s => ends_timely.mpr
      ((hlaw.lease state role batch holder _).mono fun _ _ h => ⟨confined_read h.1, h.2⟩)
    breakLease := fun id holder s => ends_timely.mpr ((hlaw.breakLease id holder _).mono
      fun _ _ h => ⟨confined_read h.1, h.2⟩)
    workload := fun role => quiet (hlaw.workload role)
    setWorkload := fun role w => quiet (hlaw.setWorkload role w)
    unbracketed := rfl }

/-- Runs of the connector at `i`. The clock may be another one for each call, and the dispatcher
may call the connector while it is asked to send; in between, anything may happen to all but the
connector's store. -/
inductive Runs (roster : Roster n) (i : Fin n) : Timed n → Timed n → Prop where
  | done (s : Timed n) : Runs roster i s s
  | call {s t u : Timed n} (clock : Nat → Instant) : Runs roster i s t →
      (roster.connector i).Serves (environment clock roster.ids i) t u → Runs roster i s u
  | round {s t : Timed n} (role : Role) (clock : Nat → Instant) (send : Transport (Timed n)) :
      Runs roster i s t → (∀ message u, Runs roster i u ((send message).after u)) →
      Runs roster i s ((((roster.connector i).manager role).runOnce
        (environment clock roster.ids i) send).after t)
  | elsewhere {s t u : Timed n} : Runs roster i s t → (u.site i).store = (t.site i).store →
      Runs roster i s u

theorem Runs.evolves {connectors : Vector Connector n} {draws : Nat → Identifier}
    (hc : (connectors.get i).Typed) (h : Runs (.drawing connectors draws) i s t)
    (hs : (s.site i).store.Tidy) : (s.site i).store.Evolves (t.site i).store := by
  have hids (k : Nat) : (draws k).text ≠ "" := (draws k).text_ne_empty
  have hlaw (clock : Nat → Instant) := environment_lawful clock (fun k => (draws k).text) i
  induction h with
  | done => exact .refl
  | call clock _ hx ih => exact (ih hs).trans (hx.evolves hids (hlaw clock) hc ((ih hs).tidy hs))
  | round role clock send _ _ ih ihsend =>
    exact (ih hs).trans (Manager.runOnce_evolves hids (hlaw clock) ((ih hs).tidy hs) ihsend)
  | elsewhere _ he ih => exact he ▸ ih hs

section Operations

theorem timely_yields {x : Action (Network n) α} {R : α → Timed n → Prop}
    (h : Yields x (read clock s).network fun a net => R a ((read clock s).put net)) :
    Yields (timely clock x) s R := yields_within h

theorem lease_yields (state : State) (role : Role) (batch : Nat) (holder : String) :
    Yields ((environment clock ids i).lease state role batch holder) s fun vs t =>
      ∃ store, (s.site i).store.leaseNext state.code (some role) batch holder
        (clock s.readings) = (vs, store) ∧ t.site i = { s.site i with store } := by
  apply timely_yields
  obtain ⟨vs, store, hl⟩ : ∃ vs store, (s.site i).store.leaseNext state.code (some role) batch
    holder (clock s.readings) = (vs, store) := ⟨_, _, rfl⟩
  exact ⟨vs, _, Network.lease_apply hl, store, hl, Network.site_setStore ..⟩

theorem save_yields (v : Negotiation) (holder : String) :
    Yields ((environment clock ids i).save v holder) s fun r t =>
      match (s.site i).store.save v holder (clock s.readings) with
      | .error error => r = .error error ∧ t.site i = s.site i
      | .ok (w, store) => r = .ok w ∧ t.site i = { s.site i with store } := by
  apply timely_yields
  have hsite (store : Store) : ((read clock s).network.setStore i store).site i =
      { s.site i with store } := Network.site_setStore ..
  have hs : ((read clock s).network.site i).store.save v holder (read clock s).network.now =
      (s.site i).store.save v holder (clock s.readings) := rfl
  unfold Yields
  rw [Network.save_apply, hs]
  cases (s.site i).store.save v holder (clock s.readings) with
  | error error => exact ⟨_, _, rfl, rfl, rfl⟩
  | ok saved => exact ⟨_, _, rfl, rfl, hsite _⟩

theorem breakLease_yields (id holder : String) :
    Yields ((environment clock ids i).breakLease id holder) s fun _ t =>
      t.site i = (s.site i).release (clock s.readings) holder id := by
  apply timely_yields
  have hbreak : Yields ((Network.environment ids i).breakLease id holder) (read clock s).network
      _ := Network.breakLease_yields id holder
  exact hbreak.mono fun _ _ h => h.site

theorem situated (clock : Nat → Instant) (ids : Nat → String) (i : Fin n) :
    (environment clock ids i).Situated (fun s => clock s.readings) fun p s =>
      s.site i = p.site where
  now h := ⟨_, _, rfl, rfl, h⟩
  freshId h := ⟨_, _, rfl, h⟩
  report _ h := ⟨_, _, rfl, h⟩
  find id h := ⟨_, _, rfl, congrArg (fun s : Site => s.store.find? id) h, h⟩
  save v holder h := by
    apply (save_yields v holder).mono
    intro r t ht
    rwa [h] at ht
  lease state role batch holder h := by
    apply (lease_yields state role batch holder).mono
    intro vs t ht
    rwa [h] at ht
  breakLease id holder h := by
    apply (breakLease_yields id holder).mono
    intro _ t ht
    rwa [h] at ht
  workload role h := ⟨_, _, rfl, congrArg (·.workload role) h, rfl⟩
  setWorkload {p s} role w h := by
    refine ⟨_, _, rfl, ?_⟩
    rw [← h]
    exact (Network.site_setSite s.network i i _).trans (if_pos rfl)

def page (s : Timed n) (i : Fin n) : Page where
  site := s.site i

theorem report_yields (notice : Notice) :
    Yields ((environment clock ids i).report notice) s fun _ t => t.site i = s.site i :=
  (situated clock ids i).report notice (p := s.page i) rfl

theorem update_yields (role : Role) (f : Workload → Workload) :
    Yields ((environment clock ids i).update role f) s fun _ t =>
      t.site i = (s.site i).update role f :=
  (situated clock ids i).update_yields (p := s.page i) rfl role f

theorem applyCommand_obeys (m : Manager) (c : QueuedCommand) (s : Timed n) :
    Yields (m.applyCommand (environment clock ids i) c) s fun _ t => ∃ asked saved,
      t.site i = (s.site i).obey m c asked saved := by
  apply ((situated clock ids i).applyCommand_yields m (p := s.page i) rfl c).mono
  rintro _ t ⟨_, _, _, ht⟩
  exact ⟨_, _, ht⟩

end Operations

end Timed

end ContractNegotiation
