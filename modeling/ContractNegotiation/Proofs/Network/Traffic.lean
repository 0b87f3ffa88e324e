import ContractNegotiation.Proofs.Manager.Alike
import ContractNegotiation.Proofs.Network.Failures

namespace ContractNegotiation

open ContractNegotiation.Action Negotiation Relation

structure Parcel (n : Nat) where
  site : Fin n
  role : Role
  message : RemoteMessage
  answer : DispatchResult

structure Traffic (n : Nat) where
  network : Network n
  parcels : List (Parcel n) := []

namespace Traffic

variable {n : Nat} {roster : Roster n} {ids : Nat → String} {i k : Fin n} {role : Role}
  {t t' : Traffic n} {α : Type}

def environment (ids : Nat → String) (i : Fin n) : Environment (Traffic n) :=
  (Network.environment ids i).within network fun t network => { t with network }

def send (roster : Roster n) (i : Fin n) (role : Role) : Transport (Traffic n) := fun message => do
  let answer ← .within network (fun t network => { t with network })
    (Network.send roster i message)
  modify fun t => { t with parcels := t.parcels ++ [⟨i, role, message, answer⟩] }
  pure answer

def runOnce (roster : Roster n) (i : Fin n) (role : Role) : Action (Traffic n) Nat :=
  ((roster.connector i).manager role).runOnce (environment roster.ids i) (send roster i role)

def Carries (P : List (Parcel n) → Prop) (t : Traffic n) (net : Network n) : Prop :=
  t.network = net ∧ P t.parcels

theorem within_alike (P : List (Parcel n) → Prop) (x : Action (Network n) α)
    {S : α → α → Prop} (hs : ∀ a, S a a) :
    Alike (Carries P) S (.within network (fun t network => { t with network }) x) x := by
  rintro t _ ⟨rfl, hp⟩
  simp only [Action.within]
  cases x t.network with
  | ok a net => exact ⟨hs a, rfl, hp⟩
  | error fault net => exact ⟨rfl, rfl, hp⟩

theorem environment_alike (ids : Nat → String) (i : Fin n) (m : Manager)
    (P : List (Parcel n) → Prop) :
    (environment ids i).Alike m (fun _ => True) (fun _ => True) (fun _ => True) False (Carries P)
      (Network.environment ids i) where
  now := within_alike P (Network.environment ids i).now fun _ => rfl
  freshId := within_alike P (Network.environment ids i).freshId fun _ => ⟨rfl, trivial⟩
  report notice := within_alike P ((Network.environment ids i).report notice) fun _ => rfl
  report_any h := h.elim
  find id := within_alike P ((Network.environment ids i).find id) fun _ =>
    ⟨rfl, fun _ _ => trivial, .inl rfl⟩
  findByCorrelation id _ := within_alike P ((Network.environment ids i).findByCorrelation id)
    fun _ => ⟨rfl, fun _ _ => trivial⟩
  save_first _ _ _ _ := within_alike P _ fun _ => rfl
  save _ _ _ _ := within_alike P _ fun _ => rfl
  lease state := by
    rintro t _ ⟨rfl, hp⟩
    obtain ⟨ns, store, hl⟩ : ∃ ns store, (t.network.site i).store.leaseNext state.code
      (some m.role) m.options.batchSize m.leaseHolder t.network.now = (ns, store) := ⟨_, _, rfl⟩
    have hnet : (Network.environment ids i).lease state m.role m.options.batchSize m.leaseHolder
        t.network = .ok ns (t.network.setStore i store) := Network.lease_apply hl
    have ht : (environment ids i).lease state m.role m.options.batchSize m.leaseHolder t =
        .ok ns { t with network := t.network.setStore i store } := by
      simp only [environment, Environment.within, Action.within, hnet]
    rw [ht, hnet]
    exact ⟨⟨rfl, fun v hv => ⟨trivial, (Store.leases_of_leaseNext hl).role v hv⟩⟩, rfl, hp⟩
  breakLease _ _ := within_alike P _ fun _ => rfl
  workload := within_alike P ((Network.environment ids i).workload m.role) fun _ => rfl
  setWorkload w := within_alike P ((Network.environment ids i).setWorkload m.role w) fun _ => rfl

theorem send_alike (roster : Roster n) (i : Fin n) (role : Role) (message : RemoteMessage) :
    Alike (Carries fun _ => True) Eq (send roster i role message)
      (Network.send roster i message) := by
  rintro t _ ⟨rfl, -⟩
  simp only [send, Action.within, bind, EStateM.bind]
  cases Network.send roster i message t.network with
  | ok answer net => exact ⟨rfl, rfl, trivial⟩
  | error fault net => exact ⟨rfl, rfl, trivial⟩

theorem network_runOnce (roster : Roster n) (i : Fin n) (role : Role) (t : Traffic n) :
    ((runOnce roster i role).after t).network = (Network.runOnce roster i role).after t.network :=
  ((Manager.runOnce_alike (environment_alike roster.ids i _ _)
    (send_alike roster i role)).after ⟨rfl, trivial⟩).1

theorem send_yields {message : RemoteMessage} {R : DispatchResult → Network n → Prop}
    (h : Yields (Network.send roster i message) t.network R) :
    Yields (send roster i role message) t fun answer t' =>
      t'.parcels = t.parcels ++ [⟨i, role, message, answer⟩] ∧ R answer t'.network := by
  obtain ⟨answer, net, hx, hr⟩ := h
  refine ⟨answer, ⟨net, t.parcels ++ [⟨i, role, message, answer⟩]⟩, ?_, rfl, hr⟩
  simp only [send, Action.within, bind, EStateM.bind, hx]
  rfl

section Lifting

variable {x : Action (Traffic n) α} {y : Action (Network n) α}
  (hx : ∀ P : List (Parcel n) → Prop, Alike (Carries P) Eq x y)
include hx

theorem lift_yields {R : α → Network n → Prop} (hy : Yields y t.network R) :
    Yields x t fun a t' => t'.parcels = t.parcels ∧ R a t'.network := by
  apply ((hx (· = t.parcels)).yields ⟨rfl, rfl⟩ hy).mono
  rintro a t' ⟨_, _, rfl, ⟨rfl, hp⟩, hr⟩
  exact ⟨hp, hr⟩

end Lifting

inductive Acts (roster : Roster n) : Traffic n → Traffic n → Prop where
  | interlude {network : Network n} (t : Traffic n) : Network.Interlude roster t.network network →
      Acts roster t { t with network }
  | round (i : Fin n) (role : Role) (t : Traffic n) :
      Acts roster t ((runOnce roster i role).after t)

theorem Acts.network (h : Acts roster t t') : Network.Acts roster t.network t'.network := by
  cases h with
  | interlude t hx => exact Network.acts_iff.mpr (.inl hx)
  | round i role t =>
    rw [network_runOnce]
    exact .round i role t.network

theorem exists_acts {net : Network n} (h : Network.Acts roster t.network net) :
    ∃ t', t'.network = net ∧ Acts roster t t' := by
  rcases Network.acts_iff.mp h with hx | ⟨i, role, rfl⟩
  · exact ⟨_, rfl, .interlude t hx⟩
  · exact ⟨_, network_runOnce roster i role t, .round i role t⟩

theorem exists_run {net : Network n} (h : ReflTransGen (Network.Acts roster) t.network net) :
    ∃ t', t'.network = net ∧ ReflTransGen (Acts roster) t t' := by
  induction h with
  | refl => exact ⟨t, rfl, .refl⟩
  | tail _ hx ih =>
    obtain ⟨t', rfl, hrun⟩ := ih
    obtain ⟨t'', hnet, hacts⟩ := exists_acts hx
    exact ⟨t'', hnet, hrun.tail hacts⟩

end Traffic

end ContractNegotiation
