import ContractNegotiation.Identifier
import ContractNegotiation.Network
import ContractNegotiation.Proofs.Manager.Round
import ContractNegotiation.Proofs.Service
import ContractNegotiation.Proofs.Site
import Mathlib.Data.Fintype.Basic

namespace ContractNegotiation

def Roster.drawing {n : Nat} (connectors : Vector Connector n) (draws : Nat → Identifier) :
    Roster n := ⟨connectors, fun k => (draws k).text⟩

namespace Network

open ContractNegotiation.Action

variable {n : Nat} {net net' : Network n} {i j k : Fin n} {ids : Nat → String}

theorem site_setSite (net : Network n) (i k : Fin n) (s : Site) :
    (net.setSite i s).site k = if k = i then s else net.site k := by
  have he : (net.setSite i s).site k = (net.sites.set i s i.isLt)[k] := rfl
  rw [he]
  by_cases h : k = i
  · subst h
    simp
  · have hi : (i : Nat) ≠ k := fun he => h (Fin.ext he.symm)
    simp only [h, if_false, Fin.getElem_fin, Vector.getElem_set, hi]
    rfl

def focus (i : Fin n) : Focus (Network n) ((Fin n → Option Site) × Table (Fin n) × Instant) where
  store net := (net.site i).store
  issued := Network.issued
  outside net := (fun k => if k = i then none else some (net.site k), net.addresses, net.now)

theorem confined_setSite (net : Network n) (i : Fin n) (s : Site) :
    (focus i).Confined net (net.setSite i s) := by
  refine ⟨Nat.le_refl _, ?_⟩
  have hsites (k : Fin n) : (if k = i then none else some ((net.setSite i s).site k)) =
      if k = i then none else some (net.site k) := by
    by_cases h : k = i <;> simp [h, site_setSite]
  simp only [focus, hsites]
  rfl

theorem site_setStore (net : Network n) (i : Fin n) (store : Store) :
    (net.setStore i store).site i = { net.site i with store } := by
  rw [setStore, site_setSite, if_pos rfl]

theorem store_setStore (net : Network n) (i : Fin n) (s : Store) :
    (focus i).store (net.setStore i s) = s := by
  simp [focus, setStore, site_setSite]

theorem confined_setStore (net : Network n) (i : Fin n) (s : Store) :
    (focus i).Confined net (net.setStore i s) := confined_setSite net i _

theorem save_apply (i : Fin n) (record : Negotiation) (holder : String) (net : Network n) :
    save i record holder net =
      match (net.site i).store.save record holder net.now with
      | .error e => .ok (.error e) net
      | .ok (w, store) => .ok (.ok w) (net.setStore i store) := by
  simp only [save, bind, EStateM.bind, get_apply]
  rcases (net.site i).store.save record holder net.now with e | ⟨w, store⟩ <;> rfl

theorem breakLease_apply (i : Fin n) (id holder : String) (net : Network n) :
    breakLease i id holder net =
      match (net.site i).store.breakLease id holder net.now with
      | .error e => .ok (.error e) net
      | .ok store => .ok (.ok ()) (net.setStore i store) := by
  simp only [breakLease, bind, EStateM.bind, get_apply]
  cases (net.site i).store.breakLease id holder net.now <;> rfl

theorem lease_apply {state : State} {role : Role} {batch : Nat} {holder : String}
    {ns : List Negotiation} {store : Store}
    (h : (net.site i).store.leaseNext state.code (some role) batch holder net.now = (ns, store)) :
    lease i state role batch holder net = .ok ns (net.setStore i store) := by
  simp only [lease, bind, EStateM.bind, get_apply, h]
  rfl

theorem environment_lawful (ids : Nat → String) (i : Fin n) :
    (environment ids i).Lawful ids (focus i) where
  now net := ⟨.refl net, net.now, rfl⟩
  freshId net := ⟨⟨⟨Nat.le_succ _, rfl⟩, rfl⟩, net.issued, Nat.le_refl _, Nat.lt_succ_self _, rfl⟩
  report notice net := ⟨⟨⟨Nat.le_refl _, rfl⟩, rfl⟩, (), rfl⟩
  find id net := ⟨.refl net, fun _ h => (Except.ok.inj h).symm⟩
  findByCorrelation id net := ⟨.refl net, fun _ h => (Except.ok.inj h).symm⟩
  findAgreement id net := .refl net
  select q net := .refl net
  save n holder net := by
    refine ends_bind.mpr (ends_get.mpr ?_)
    dsimp only
    split
    · exact ⟨.refl net, .inl ⟨rfl, by simp⟩⟩
    · rename_i saved store h
      refine ⟨confined_setStore net i store, .inr ⟨saved, rfl, ?_⟩⟩
      rw [store_setStore]
      exact Store.saved_of_save h
  save_next n v holder net hid hc hf hv hl := by
    refine ends_bind.mpr (ends_get.mpr ?_)
    have hs : (net.site i).store.save n holder net.now = _ := Store.save_next hid hc hf hv hl
    simp only [hs]
    exact ⟨_, rfl⟩
  lease state role batch holder net := by
    refine ⟨confined_setStore net i _, .inr ⟨_, net.now, rfl, ?_⟩⟩
    rw [store_setStore]
    rfl
  breakLease id holder net := by
    refine ends_bind.mpr (ends_get.mpr ?_)
    dsimp only
    split
    · exact ⟨.refl net, .inl rfl⟩
    · rename_i store h
      refine ⟨confined_setStore net i store, ?_⟩
      rw [store_setStore]
      exact Store.breakLease_cases h
  workload role net := ⟨.refl net, _, rfl⟩
  setWorkload role w net := by
    refine ⟨⟨confined_setSite net i _, ?_⟩, (), rfl⟩
    simp only [focus, site_setSite, if_true]
    cases role <;> rfl
  unbracketed := rfl

end Network

end ContractNegotiation
