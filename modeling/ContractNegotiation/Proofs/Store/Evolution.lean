import ContractNegotiation.Proofs.Store
import Mathlib.Logic.Relation

namespace ContractNegotiation

open Relation

structure Negotiation.Starts (w : Negotiation) (role : Role) (state : State)
    (peer address : String) (offer : Offer) : Prop where
  role : w.role = some role
  stateCode : w.stateCode = state.code
  stateCount : w.stateCount = 1
  correlationId : w.correlationId = peer
  counterPartyAddress : w.counterPartyAddress = address
  offers : w.offers = [offer]
  agreement : w.agreement = none

def Negotiation.First (w : Negotiation) : Prop :=
  (∃ address offer, w.Starts .consumer .requesting "" address offer) ∨
    ∃ peer address offer, peer ≠ "" ∧ w.Starts .provider .consumerRequested peer address offer

def Event.Admissible (v : Negotiation) : Event → Prop
  | .process .. | .counterOffer _ | .cancel | .decline _ | .fail _ => True
  | .agreementReceived a _ => v.correlationId ≠ "" ∧ a.id ≠ ""
  | .requestReceived _ | .offerReceived _ | .verificationReceived | .finalizationReceived
  | .terminationReceived _ => v.correlationId ≠ ""

namespace Store

variable {s t u : Store} {n v w : Negotiation} {event : Event} {agreementId peer : String}

structure Opened (s : Store) (w : Negotiation) (t : Store) : Prop where
  id : w.id ≠ ""
  fresh : s.find? w.id = none
  store : t = { s with records := w :: s.records }

structure Moved (s : Store) (v : Negotiation) (event : Event) (agreementId peer : String)
    (w : Negotiation) (t : Store) : Prop where
  stored : s.find? v.id = some v
  counted : v.stateCount ≠ 0
  follows : v.Follows event agreementId peer w
  store : t = s.replace w

theorem Opened.find? (h : s.Opened w t) (id : String) :
    t.find? id = if id = w.id then some w else s.find? id := by
  rw [h.store, find?_cons]
  simp only [eq_comm]

theorem Moved.find? (h : s.Moved v event agreementId peer w t) (id : String) :
    t.find? id = if id = w.id then some w else s.find? id := by
  rw [h.store, find?_replace]
  by_cases hi : id = w.id
  · simp [hi, h.follows.id, h.stored]
  · simp [hi]

theorem Opened.leases (h : s.Opened w t) : t.leases = s.leases := h.store ▸ rfl

theorem Moved.leases (h : s.Moved v event agreementId peer w t) : t.leases = s.leases :=
  h.store ▸ rfl

theorem Opened.tidy (h : s.Opened w t) (hs : s.Tidy) : t.Tidy := h.store ▸ hs.cons h.fresh

theorem Moved.tidy (h : s.Moved v event agreementId peer w t) (hs : s.Tidy) : t.Tidy :=
  h.store ▸ hs.replace w

def Includes (s : Store) (n : Negotiation) : Prop :=
  ∃ v, s.find? n.id = some v ∧ (v = n ∨ n.version < v.version)

theorem includes_of_find? (h : s.find? n.id = some n) : s.Includes n := ⟨n, h, .inl rfl⟩

theorem Includes.moved {now : Instant} {next : Negotiation} {message : Option RemoteMessage}
    (h : s.Includes v) (ht : v.transition event now agreementId = .applied next message)
    (hs : Saved s (next.correlate peer) w t) :
    s.Moved v event agreementId peer w t ∧ w = v.successor next peer := by
  obtain ⟨stored, hf, hv⟩ := h
  have hc := (Negotiation.row_of_transition ht).continues
  have hid : (next.correlate peer).id = v.id := by
    rw [Negotiation.correlate_eq]
    exact hc.id
  have hcount : (next.correlate peer).stateCount = v.stateCount := by
    rw [Negotiation.correlate_eq]
    exact hc.stateCount
  cases hs with
  | first _ _ hnone => rw [hid, hf] at hnone; cases hnone
  | next v' _ hne hf' hv' =>
    rw [hid, hf] at hf'
    cases hf'
    rcases hv with rfl | hv
    · rw [hcount]
      exact ⟨⟨hf, hcount ▸ hne, ⟨now, next, message, ht, rfl⟩, rfl⟩, rfl⟩
    · have he : stored.version = v.version := by
        rw [Negotiation.version, hv', hcount, Negotiation.version]
      omega

theorem Opened.of_saved {next : Negotiation} (h : Saved s next w t) (hc : next.stateCount = 0) :
    s.Opened w t ∧ w = { next with stateCount := 1 } := by
  cases h with
  | first hid _ hf => exact ⟨⟨hid, hf, rfl⟩, rfl⟩
  | next _ _ hne => exact absurd hc hne

inductive Write (s t : Store) : Prop where
  | leases : t.records = s.records → Write s t
  | opened (w : Negotiation) : s.Opened w t → w.First → Write s t
  | moved (v w : Negotiation) (event : Event) (agreementId peer : String) :
      s.Moved v event agreementId peer w t → event.Admissible v →
      (v.drawsId event = true → agreementId ≠ "") → Write s t

abbrev Evolves : Store → Store → Prop := ReflTransGen Write

theorem Write.tidy (h : Write s t) (hs : s.Tidy) : t.Tidy := by
  cases h with
  | leases h => simpa only [Tidy, h] using hs
  | opened w h _ => exact h.tidy hs
  | moved v w event agreementId peer h _ _ => exact h.tidy hs

theorem Evolves.tidy (h : s.Evolves t) (hs : s.Tidy) : t.Tidy := by
  induction h with
  | refl => exact hs
  | tail _ h ih => exact h.tidy ih

theorem Write.named (h : Write s t) (hs : s.find? "" = none) : t.find? "" = none := by
  cases h with
  | leases h => simpa only [Store.find?, h] using hs
  | opened w h _ => rw [h.find?, if_neg h.id.symm, hs]
  | moved v w event agreementId peer h _ _ =>
    have hne : "" ≠ w.id := fun he => by
      rw [h.follows.id] at he
      rw [he, h.stored] at hs
      cases hs
    rw [h.find?, if_neg hne, hs]

theorem Evolves.named (h : s.Evolves t) (hs : s.find? "" = none) : t.find? "" = none := by
  induction h with
  | refl => exact hs
  | tail _ h ih => exact h.named ih

theorem Opened.includes (h : s.Opened w t) (hn : s.Includes n) : t.Includes n := by
  obtain ⟨v, hf, hv⟩ := hn
  have hne : n.id ≠ w.id := fun he => by
    rw [he, h.fresh] at hf
    cases hf
  exact ⟨v, by rw [h.find?, if_neg hne, hf], hv⟩

theorem Moved.includes (h : s.Moved v event agreementId peer w t) (hn : s.Includes n) :
    t.Includes n := by
  obtain ⟨v', hf, hv⟩ := hn
  by_cases he : n.id = w.id
  · have hv' : v' = v := by
      rw [he, h.follows.id, h.stored] at hf
      exact (Option.some.inj hf).symm
    subst hv'
    have hsucc := Negotiation.version_succ h.counted h.follows.stateCount
    refine ⟨w, by rw [h.find?, if_pos he], .inr ?_⟩
    rcases hv with rfl | hv <;> omega
  · exact ⟨v', by rw [h.find?, if_neg he, hf], hv⟩

theorem Write.includes (h : Write s t) (hn : s.Includes n) : t.Includes n := by
  cases h with
  | leases h => simpa only [Includes, Store.find?, h] using hn
  | opened w h _ => exact h.includes hn
  | moved v w event agreementId peer h _ _ => exact h.includes hn

theorem Evolves.includes (h : s.Evolves t) (hn : s.Includes n) : t.Includes n := by
  induction h with
  | refl => exact hn
  | tail _ h ih => exact h.includes ih

end Store

end ContractNegotiation
