import ContractNegotiation.Environment
import ContractNegotiation.Proofs.Action
import ContractNegotiation.Proofs.Store

namespace ContractNegotiation

open ContractNegotiation.Action

/-- The parts of a state that an environment is about: the connector's store, the number of ids that
were handed out, and the rest that its operations leave alone. -/
structure Focus (σ ρ : Type) where
  store : σ → Store
  issued : σ → Nat
  outside : σ → ρ

namespace Focus

variable {σ ρ α : Type} {f : Focus σ ρ} {s t u : σ}

structure Confined (f : Focus σ ρ) (s t : σ) : Prop where
  issued : f.issued s ≤ f.issued t
  outside : f.outside t = f.outside s

theorem Confined.refl (s : σ) : f.Confined s s := ⟨Nat.le_refl _, rfl⟩

theorem Confined.trans (h : f.Confined s t) (h' : f.Confined t u) : f.Confined s u :=
  ⟨Nat.le_trans h.issued h'.issued, h'.outside.trans h.outside⟩

structure Keeps (f : Focus σ ρ) (s t : σ) : Prop extends f.Confined s t where
  store : f.store t = f.store s

theorem Keeps.refl (s : σ) : f.Keeps s s := ⟨.refl s, rfl⟩

theorem Keeps.trans (h : f.Keeps s t) (h' : f.Keeps t u) : f.Keeps s u :=
  ⟨h.toConfined.trans h'.toConfined, h'.store.trans h.store⟩

def Quiet (f : Focus σ ρ) (x : Action σ α) : Prop :=
  ∀ s, Ends x s fun r t => f.Keeps s t ∧ ∃ a, r = .ok a

def Harmless (f : Focus σ ρ) (x : Action σ α) : Prop := ∀ s, Ends x s fun _ t => f.Keeps s t

end Focus

/-- Reads show the store as it is, and writes do to it what its operations do, or nothing. -/
structure Environment.Lawful {σ ρ : Type} (env : Environment σ) (ids : Nat → String)
    (f : Focus σ ρ) : Prop where
  now : f.Quiet env.now
  freshId : ∀ s, Ends env.freshId s fun r t => f.Keeps s t ∧
    ∃ k, f.issued s ≤ k ∧ k < f.issued t ∧ r = .ok (ids k)
  report : ∀ notice, f.Quiet (env.report notice)
  find : ∀ id s, Ends (env.find id) s fun r t => f.Keeps s t ∧
    ∀ found, r = .ok found → found = (f.store s).find? id
  findByCorrelation : ∀ id s, Ends (env.findByCorrelation id) s fun r t => f.Keeps s t ∧
    ∀ found, r = .ok found → found = (f.store s).findByCorrelation? id
  findAgreement : ∀ id, f.Harmless (env.findAgreement id)
  select : ∀ query, f.Harmless (env.select query)
  save : ∀ n holder s, Ends (env.save n holder) s fun r t => f.Confined s t ∧
    (f.store t = f.store s ∧ (∀ w, r ≠ .ok (.ok w)) ∨
      ∃ w, r = .ok (.ok w) ∧ Store.Saved (f.store s) n w (f.store t))
  save_next : ∀ n v holder s, n.id ≠ "" → n.stateCount ≠ 0 → (f.store s).find? n.id = some v →
    v.stateCount = n.stateCount →
    (∀ lease, (f.store s).leases.get? n.id = some lease → lease.holder = holder) →
    Ends (env.save n holder) s fun r _ => ∃ w, r = .ok (.ok w)
  lease : ∀ state role batch holder s, Ends (env.lease state role batch holder) s fun r t =>
    f.Confined s t ∧ (f.store t = f.store s ∧ (∀ ns, r ≠ .ok ns) ∨
      ∃ ns now, r = .ok ns ∧
        (f.store s).leaseNext state.code (some role) batch holder now = (ns, f.store t))
  breakLease : ∀ id holder s, Ends (env.breakLease id holder) s fun _ t => f.Confined s t ∧
    (f.store t = f.store s ∨ f.store t = { f.store s with leases := (f.store s).leases.erase id })
  workload : ∀ role, f.Quiet (env.workload role)
  setWorkload : ∀ role w, f.Quiet (env.setWorkload role w)
  unbracketed : env.transactions = .none

namespace Focus

variable {σ ρ α β : Type} {f : Focus σ ρ} {s : σ}

theorem Quiet.bind_ends {x : Action σ α} {g : α → Action σ β} {Q : Except Fault β → σ → Prop}
    (hx : f.Quiet x) (h : ∀ a t, f.Keeps s t → Ends (g a) t Q) : Ends (x >>= g) s Q := by
  refine (hx s).bind ?_ ?_
  · intro a t ht
    exact h a t ht.1
  · rintro fault t ⟨_, a, ha⟩
    cases ha

theorem Quiet.bind {x : Action σ α} {g : α → Action σ β} (hx : f.Quiet x)
    (hg : ∀ a, f.Quiet (g a)) : f.Quiet (x >>= g) := by
  intro s
  refine hx.bind_ends fun a t ht => (hg a t).mono ?_
  rintro r u ⟨hu, hr⟩
  exact ⟨ht.trans hu, hr⟩

theorem quiet_pure (a : α) : f.Quiet (pure a) := fun s => ⟨.refl s, a, rfl⟩

end Focus

end ContractNegotiation
