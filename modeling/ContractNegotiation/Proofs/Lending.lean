import ContractNegotiation.Manager.Round
import ContractNegotiation.Proofs.Site
import ContractNegotiation.Proofs.Transition.Table

namespace ContractNegotiation

open Negotiation

def Negotiation.replacedBy (v : Negotiation) : Option Negotiation → Negotiation
  | none => v
  | some next => if v.stateCount = 0 then v else next

namespace Store

variable {s t : Store} {m : Manager} {v : Negotiation} {vs ws : List Negotiation}

structure Lends (s : Store) (m : Manager) (v : Negotiation) : Prop where
  id : v.id ≠ ""
  stored : s.find? v.id = some v
  role : v.role = some m.role
  state : v.state ∈ State.processable m.role
  lease : ∀ lease, s.leases.get? v.id = some lease → lease.holder = m.leaseHolder

structure Writes (s : Store) (v : Negotiation) (next : Option Negotiation) (t : Store) : Prop where
  find? : ∀ id, t.find? id = if id = v.id then some (v.replacedBy next) else s.find? id
  leases : t.leases = s.leases

structure Settles (s : Store) (v : Negotiation) (next : Option Negotiation) (t : Store) :
    Prop where
  find? : ∀ id, t.find? id = if id = v.id then some (v.replacedBy next) else s.find? id
  leases : ∀ id, t.leases.get? id = if id = v.id then none else s.leases.get? id

theorem Lends.writes_nothing (h : s.Lends m v) : s.Writes v none s := by
  refine ⟨fun id => ?_, rfl⟩
  split
  · rename_i hid
    rw [hid, h.stored]
    rfl
  · rfl

theorem Lends.applied (h : s.Lends m v) (now : Instant) (agreementId : String) :
    ∃ next message, v.transition m.turn now agreementId = .applied next message :=
  applied_iff.mpr ((mem_processable_iff h.role).mp h.state)

theorem Lends.isTerminal (h : s.Lends m v) : v.state.isTerminal = false := by
  obtain ⟨next, message, ht⟩ := h.applied default ""
  exact (row_of_transition ht).isTerminal

theorem Lends.save_exhausted {next : Negotiation} (h : s.Lends m v) (hc : v.Continues next)
    (hcount : v.stateCount = 0) (peer : String) (now : Instant) :
    s.save (next.correlate peer) m.leaseHolder now = .error (.alreadyStored v.id) := by
  have hid : (next.correlate peer).id = v.id := by rw [correlate_eq, hc.id]
  -- with a count of zero the version is taken for a first one, whose id is in use
  rw [← hid]
  apply save_stored
  · rw [hid]
    exact h.id
  · rw [correlate_eq]
    exact hc.stateCount.trans hcount
  · rw [hid]
    exact h.stored

structure Offers (s : Store) (m : Manager) (state : State) (v : Negotiation) : Prop where
  stored : s.find? v.id = some v
  role : v.role = some m.role
  state : v.state = state
  applied : ∀ now agreementId, ∃ next message,
    v.transition m.turn now agreementId = .applied next message

structure Lending (s : Store) (m : Manager) (vs : List Negotiation) : Prop where
  lends : ∀ v ∈ vs, s.Lends m v
  only : ∀ id lease, s.leases.get? id = some lease → lease.holder = m.leaseHolder →
    id ∈ vs.map Negotiation.id
  nodup : (vs.map Negotiation.id).Nodup

structure Clear (s : Store) (m : Manager) : Prop where
  tidy : s.Tidy
  named : s.find? "" = none
  lending : s.Lending m []

theorem Lending.perm (h : s.Lending m vs) (hp : ws.Perm vs) : s.Lending m ws := by
  have hids := hp.map Negotiation.id
  refine ⟨fun v hv => h.lends v (hp.mem_iff.mp hv), fun id lease hl hm => ?_, ?_⟩
  · exact hids.mem_iff.mpr (h.only id lease hl hm)
  · exact hids.nodup_iff.mpr h.nodup

theorem Lending.settles {next : Option Negotiation} (h : s.Lending m (v :: vs))
    (ht : s.Settles v next t) : t.Lending m vs := by
  have hnodup := h.nodup
  rw [List.map_cons, List.nodup_cons] at hnodup
  refine ⟨fun w hw => ?_, fun id lease hl hm => ?_, hnodup.2⟩
  · have hne : w.id ≠ v.id := fun he => hnodup.1 (he ▸ List.mem_map_of_mem hw)
    have hlends := h.lends w (List.mem_cons_of_mem v hw)
    refine { hlends with stored := ?_, lease := ?_ }
    · rw [ht.find?, if_neg hne, hlends.stored]
    · rw [ht.leases, if_neg hne]
      exact hlends.lease
  · rw [ht.leases] at hl
    split at hl
    · cases hl
    · rename_i hne
      have hmem := h.only id lease hl hm
      rw [List.map_cons, List.mem_cons] at hmem
      exact hmem.resolve_left hne

section LeaseNext

variable {state : State} {batch : Nat} {now : Instant} (h : s.Clear m)
  (hstate : state ∈ State.processable m.role)
  (hl : s.leaseNext state.code (some m.role) batch m.leaseHolder now = (vs, t))
include h hstate hl

theorem Clear.lending_of_leaseNext : t.Lending m vs := by
  have hleases := leases_of_leaseNext hl
  refine ⟨fun v hv => ?_, fun id lease hlease hm => ?_, hleases.nodup h.tidy⟩
  · have hstored := h.tidy.find?_of_mem (hleases.stored v hv)
    refine ⟨fun hid => ?_, ?_, hleases.role v hv, ?_, fun lease hlease => ?_⟩
    · rw [hid, h.named] at hstored
      cases hstored
    · simpa only [find?, hleases.records] using hstored
    · rwa [Negotiation.state, hleases.stateCode v hv, State.ofCode_code]
    · rw [get?_leaseNext hl, if_pos (List.mem_map_of_mem hv)] at hlease
      cases hlease
      rfl
  · rw [get?_leaseNext hl] at hlease
    split at hlease
    · rename_i hmem
      exact hmem
    · exact absurd (h.lending.only id lease hlease hm) (by simp)

theorem Clear.offers_of_leaseNext (hv : v ∈ vs) : s.Offers m state v := by
  have hleases := leases_of_leaseNext hl
  refine ⟨h.tidy.find?_of_mem (hleases.stored v hv), hleases.role v hv, ?_, ?_⟩
  · rw [Negotiation.state, hleases.stateCode v hv, State.ofCode_code]
  · exact ((h.lending_of_leaseNext hstate hl).lends v hv).applied

end LeaseNext

end Store

namespace Site

variable {s : Site} {m : Manager} {v next : Negotiation} {st : Store} {role : Role}

theorem writes_conclude (h : s.store.Lends m v) (hc : v.Continues next) (peer : String)
    (now : Instant) : s.store.Writes v (some (v.successor next peer))
      (s.conclude role now m.leaseHolder (next.correlate peer)).store := by
  by_cases hcount : v.stateCount = 0
  · have hsave := h.save_exhausted hc hcount peer now
    have hkept : v.replacedBy (some (v.successor next peer)) = v.replacedBy none := if_pos hcount
    simp only [conclude, hsave]
    refine ⟨fun id => ?_, rfl⟩
    rw [hkept]
    exact h.writes_nothing.find? id
  · rw [conclude_eq ⟨h.id, hcount, h.stored, h.lease⟩ hc, store_record]
    refine ⟨fun id => ?_, rfl⟩
    rw [Store.find?_replace, hc.id_successor]
    split
    · rename_i hid
      simp only [hid, h.stored, Option.map_some, replacedBy, hcount, if_false]
    · rfl

theorem settles_release {version : Option Negotiation} (h : st.Lends m v)
    (hw : st.Writes v version s.store) (now : Instant) :
    st.Settles v version (s.release now m.leaseHolder v.id).store := by
  refine ⟨fun id => ?_, fun id => ?_⟩
  · have hfind : (s.release now m.leaseHolder v.id).store.find? id = s.store.find? id := by
      simp only [Store.find?, records_release]
    rw [hfind, hw.find?]
  · rw [leases_release (hw.leases ▸ h.lease), hw.leases]

end Site

end ContractNegotiation
