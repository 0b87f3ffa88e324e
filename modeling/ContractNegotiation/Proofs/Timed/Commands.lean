import ContractNegotiation.Proofs.Timed.Round

namespace ContractNegotiation

open ContractNegotiation.Action Negotiation

namespace Manager

variable {σ : Type} (m : Manager) (env : Environment σ)

def drainAhead (ahead : List QueuedCommand) : Action σ Unit := do
  let _ ← m.takeCommands env
  each (m.applyCommand env) ahead

end Manager

namespace Timed

variable {n : Nat} {m : Manager} {clock : Nat → Instant} {ids : Nat → String} {i : Fin n}
  {s t : Timed n} {c : QueuedCommand} {cs ahead behind : List QueuedCommand} {id : String}
  {w : Negotiation} {P : Negotiation → Prop}

theorem drainCommands_tries (m : Manager) (s : Timed n) :
    Yields (m.drainCommands (environment clock ids i)) s fun _ t => ∀ role id,
      (∀ c ∈ drained m i s, c.command.target ≠ id) →
        (t.site i).tries role id = (s.site i).tries role id := by
  apply drainCommands_keeps
  · apply (takeCommands_yields m s).mono
    rintro _ t ⟨-, ht⟩ role id -
    rw [ht, Site.tries_update]
    split
    · rename_i hrole
      rw [hrole]
      rfl
    · rfl
  · intro c hc u hu
    apply (applyCommand_obeys m c u).mono
    rintro _ u' ⟨asked, saved, hu'⟩ role id hid
    have hkept := (Site.obeys_obey (u.site i) m c asked saved).tries role (hid c hc).symm
    rw [hu', hkept, hu role id hid]

theorem commands_keep (hw : (s.site i).store.find? id = some w)
    (hstop : w.state.isTerminal = true) (cs : List QueuedCommand) :
    Yields (each (m.applyCommand (environment clock ids i)) cs) s fun _ t =>
      (t.site i).store.find? id = some w := by
  have hstep (c : QueuedCommand) (cs : List QueuedCommand) (u : Timed n)
      (hu : (u.site i).store.find? id = some w) :
      Yields (m.applyCommand (environment clock ids i) c) u fun _ u' =>
        (u'.site i).store.find? id = some w := by
    apply (applyCommand_obeys m c u).mono
    rintro _ u' ⟨asked, saved, hu'⟩
    rw [hu']
    exact (Site.obeys_obey (u.site i) m c asked saved).find? hu fun _ => hstop
  exact each_yields (fun _ (u : Timed n) => (u.site i).store.find? id = some w) hstep hw

theorem drainAhead_keeps {I : Timed n → Prop} (ahead : List QueuedCommand)
    (htake : Yields (m.takeCommands (environment clock ids i)) s fun _ t => I t)
    (htry : ∀ c u, I u → Yields (m.applyCommand (environment clock ids i) c) u fun _ u' => I u') :
    Yields (m.drainAhead (environment clock ids i) ahead) s fun _ t => I t := by
  apply htake.bind
  intro _ t ht
  exact each_yields (fun _ => I) (fun c _ u hu => htry c u hu) ht

theorem drainAhead_leases (m : Manager) (ahead : List QueuedCommand) (s : Timed n) :
    Yields (m.drainAhead (environment clock ids i) ahead) s fun _ t =>
      (t.site i).store.leases = (s.site i).store.leases := by
  apply drainAhead_keeps
  · apply (takeCommands_yields m s).mono
    rintro _ t ⟨-, ht⟩
    rw [ht, Site.store_update]
  · intro c u hu
    exact (applyCommand_amends m c u).mono fun _ _ hu' => hu'.leases.trans hu

theorem drainAhead_evolves (hids : ∀ k, ids k ≠ "") (hs : (s.site i).store.Tidy)
    (ahead : List QueuedCommand) :
    Yields (m.drainAhead (environment clock ids i) ahead) s fun _ t =>
      (s.site i).store.Evolves (t.site i).store := by
  have hback : NoCallback i (fun _ => throw default : Transport (Timed n)) := fun _ _ => rfl
  have hupholds : Manager.Upholds m (environment clock ids i) _ _ := upholds_evolves hids hback hs
  apply drainAhead_keeps
  · apply (takeCommands_yields m s).mono
    rintro _ t ⟨-, ht⟩
    rw [ht, Site.store_update]
  · intro c u hu
    apply ((applyCommand_amends m c u).andEnds (hupholds.command c u ⟨hu, by simp⟩)).mono
    rintro _ u' ⟨-, hu', -⟩
    exact hu'

theorem drainCommands_through (hbatch : drained m i s = ahead ++ c :: behind)
    (htry : Yields (m.applyCommand (environment clock ids i) c)
      ((m.drainAhead (environment clock ids i) ahead).after s) fun _ t =>
        ∃ w, (t.site i).store.find? id = some w ∧ w.state.isTerminal = true ∧ P w) :
    Yields (m.drainCommands (environment clock ids i)) s fun _ t =>
      ∃ w, (t.site i).store.find? id = some w ∧ w.state.isTerminal = true ∧ P w := by
  have htakes : Yields (m.takeCommands (environment clock ids i)) s fun batch _ =>
      batch = drained m i s := (takeCommands_yields m s).mono fun _ _ ht => ht.1
  obtain ⟨_, u, htake, rfl⟩ := htakes
  have hahead : m.drainAhead (environment clock ids i) ahead s =
      each (m.applyCommand (environment clock ids i)) ahead u := by
    simp only [Manager.drainAhead, Bind.bind, EStateM.bind, htake]
  have hfirst : Yields (each (m.applyCommand (environment clock ids i)) ahead) u fun _ t =>
      t = (m.drainAhead (environment clock ids i) ahead).after s := by
    obtain ⟨a, t, hx, ht⟩ := (drainAhead_leases m ahead s).andEnds ends_after
    exact ⟨a, t, hahead.symm.trans hx, ht.2⟩
  have htaken : Yields (m.takeCommands (environment clock ids i)) s fun batch t =>
      batch = drained m i s ∧ t = u := ⟨_, _, htake, rfl, rfl⟩
  apply htaken.bind
  rintro _ t ⟨rfl, rfl⟩
  rw [hbatch, each_append, bind_assoc]
  apply hfirst.bind
  rintro _ t rfl
  simp only [each, bind_assoc]
  apply htry.bind
  rintro _ t ⟨w, hw, hstop, hp⟩
  apply (commands_keep hw hstop behind).bind
  intro _ t' ht'
  exact yields_pure.mpr ⟨w, ht', hstop, hp⟩

end Timed

end ContractNegotiation
