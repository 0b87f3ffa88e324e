import ContractNegotiation.Proofs.Network

namespace ContractNegotiation

open ContractNegotiation.Action

inductive Deed where
  | saved (record : Negotiation) (holder : String) (answer : Except StoreError Negotiation)
  | sent (message : RemoteMessage) (version : Option Negotiation) (now : Instant)
    (answer : DispatchResult)

/-- For each of the next saves, `refusals` may say what the medium answers in place of the store. -/
structure Journal (n : Nat) where
  network : Network n
  refusals : List (Option StoreError) := []
  deeds : List Deed := []

structure Desk where
  store : Store
  work : Workload
  now : Instant
  refusals : List (Option StoreError)
  deeds : List Deed

namespace Desk

def answer (d : Desk) (n : Negotiation) (holder : String) :
    Except StoreError (Negotiation × Store) :=
  match d.refusals.head?.join with
  | some error => .error error
  | none => d.store.save n holder d.now

def noting (d : Desk) (n : Negotiation) (holder : String) (answer : Except StoreError Negotiation) :
    Desk :=
  { d with refusals := d.refusals.tail, deeds := d.deeds ++ [.saved n holder answer] }

inductive Saves (d : Desk) (n : Negotiation) (holder : String) :
    Except StoreError Negotiation → Desk → Prop where
  | refused (e : StoreError) : d.answer n holder = .error e →
      Saves d n holder (.error e) (d.noting n holder (.error e))
  | written (w : Negotiation) (store : Store) : d.answer n holder = .ok (w, store) →
      Saves d n holder (.ok w) { d.noting n holder (.ok w) with store }

variable {d d' : Desk} {n w : Negotiation} {holder : String}

theorem Saves.store_eq {e : StoreError} (h : d.Saves n holder (.error e) d') :
    d'.store = d.store := by
  cases h
  rfl

theorem Saves.saved (h : d.Saves n holder (.ok w) d') :
    d.store.Saved n w d'.store := by
  cases h with
  | written _ store h =>
    unfold answer at h
    split at h
    · cases h
    · exact Store.saved_of_save h

def breakLease (d : Desk) (id holder : String) : Desk :=
  match d.store.breakLease id holder d.now with
  | .error _ => d
  | .ok store => { d with store }

end Desk

section Conduct

variable {σ α β : Type} {desk : σ → Desk} {s : σ}

def Reads (desk : σ → Desk) (x : Action σ α) (a : Desk → α) : Prop :=
  ∀ s, Ends x s fun r t => r = .ok (a (desk s)) ∧ desk t = desk s

def Leaves (desk : σ → Desk) (x : Action σ α) : Prop :=
  ∀ s, Ends x s fun r t => (∃ a, r = .ok a) ∧ desk t = desk s

def Acts (desk : σ → Desk) (x : Action σ α) (f : Desk → Desk) : Prop :=
  ∀ s, Ends x s fun r t => (∃ a, r = .ok a) ∧ desk t = f (desk s)

theorem Reads.bind_ends {x : Action σ α} {a : Desk → α} {g : α → Action σ β}
    {Q : Except Fault β → σ → Prop} (hx : Reads desk x a)
    (h : ∀ t, desk t = desk s → Ends (g (a (desk s))) t Q) : Ends (x >>= g) s Q := by
  refine (hx s).bind ?_ ?_
  · rintro _ t ⟨hr, ht⟩
    obtain rfl := Except.ok.inj hr
    exact h t ht
  · rintro fault t ⟨hr, -⟩
    cases hr

theorem Leaves.bind_ends {x : Action σ α} {g : α → Action σ β} {Q : Except Fault β → σ → Prop}
    (hx : Leaves desk x) (h : ∀ a t, desk t = desk s → Ends (g a) t Q) : Ends (x >>= g) s Q := by
  refine (hx s).bind ?_ ?_
  · rintro a t ⟨-, ht⟩
    exact h a t ht
  · rintro fault t ⟨⟨a, hr⟩, -⟩
    cases hr

theorem Acts.bind_ends {x : Action σ α} {f : Desk → Desk} {g : α → Action σ β}
    {Q : Except Fault β → σ → Prop} (hx : Acts desk x f)
    (h : ∀ a t, desk t = f (desk s) → Ends (g a) t Q) : Ends (x >>= g) s Q := by
  refine (hx s).bind ?_ ?_
  · rintro a t ⟨-, ht⟩
    exact h a t ht
  · rintro fault t ⟨⟨a, hr⟩, -⟩
    cases hr

structure Environment.Faithful (env : Environment σ) (role : Role) (desk : σ → Desk) : Prop where
  now : Reads desk env.now Desk.now
  freshId : Leaves desk env.freshId
  report : ∀ notice, Leaves desk (env.report notice)
  find : ∀ key, Reads desk (env.find key) (·.store.find? key)
  findByCorrelation : ∀ key,
    Reads desk (env.findByCorrelation key) (·.store.findByCorrelation? key)
  save : ∀ n holder s, Ends (env.save n holder) s fun r t =>
    ∃ answer, r = .ok answer ∧ (desk s).Saves n holder answer (desk t)
  lease : ∀ state batch holder s, Ends (env.lease state role batch holder) s fun r t =>
    ∃ ns store, r = .ok ns ∧ desk t = { desk s with store } ∧
      (desk s).store.leaseNext state.code (some role) batch holder (desk s).now = (ns, store)
  breakLease : ∀ key holder, Acts desk (env.breakLease key holder) (·.breakLease key holder)
  workload : Reads desk (env.workload role) Desk.work
  setWorkload : ∀ work, Acts desk (env.setWorkload role work) ({ · with work })

end Conduct

namespace Journal

variable {n : Nat}

def attempt (i : Fin n) (record : Negotiation) (holder : String) :
    Action (Journal n) (Except StoreError Negotiation) := do
  let j ← get
  match j.refusals.head?.join with
  | some error => pure (.error error)
  | none => .within network (fun j network => { j with network }) (Network.save i record holder)

def save (i : Fin n) (record : Negotiation) (holder : String) :
    Action (Journal n) (Except StoreError Negotiation) := do
  let answer ← attempt i record holder
  modify fun j =>
    { j with refusals := j.refusals.tail, deeds := j.deeds ++ [.saved record holder answer] }
  pure answer

def environment (ids : Nat → String) (i : Fin n) : Environment (Journal n) :=
  { (Network.environment ids i).within network fun j network => { j with network } with
    save := save i }

def site (j : Journal n) (i : Fin n) : Site := j.network.site i

def desk (i : Fin n) (role : Role) (j : Journal n) : Desk :=
  ⟨(j.site i).store, (j.site i).workload role, j.network.now, j.refusals, j.deeds⟩

theorem desk_setStore (j : Journal n) (i : Fin n) (role : Role) (store : Store) :
    desk i role { j with network := j.network.setStore i store } =
      { desk i role j with store } := by
  simp only [desk, site, Network.site_setStore, Site.workload_store]
  rfl

theorem desk_setWorkload (j : Journal n) (i : Fin n) (role : Role) (work : Workload) :
    desk i role { j with network := j.network.setSite i ((j.site i).setWorkload role work) } =
      { desk i role j with work } := by
  simp only [desk, site, Network.site_setSite, if_pos, Site.workload_setWorkload,
    Site.store_setWorkload]
  rfl

theorem save_ends (i : Fin n) (role : Role) (record : Negotiation) (holder : String)
    (j : Journal n) : Ends (save i record holder) j fun r t =>
      ∃ answer, r = .ok answer ∧ (desk i role j).Saves record holder answer (desk i role t) := by
  refine ends_bind.mpr (ends_bind.mpr (ends_get.mpr ?_))
  dsimp only
  split
  · rename_i error hrefusal
    refine ⟨_, rfl, .refused error ?_⟩
    simp only [Desk.answer, desk, hrefusal]
  · rename_i hrefusal
    refine ends_within.mpr (ends_bind.mpr (ends_get.mpr ?_))
    have hanswer : (desk i role j).answer record holder =
        (j.network.site i).store.save record holder j.network.now := by
      simp only [Desk.answer, desk, hrefusal, site]
    dsimp only
    split
    · rename_i error herror
      exact ⟨_, rfl, .refused error (hanswer.trans herror)⟩
    · rename_i w store hok
      refine ⟨.ok w, rfl, ?_⟩
      have hw := Desk.Saves.written w store (hanswer.trans hok)
      have hdesk := desk_setStore (n := n)
        { j with refusals := j.refusals.tail, deeds := j.deeds ++ [.saved record holder (.ok w)] }
        i role store
      exact hdesk ▸ hw

theorem faithful (ids : Nat → String) (i : Fin n) (role : Role) :
    (environment ids i).Faithful role (desk i role) where
  now _ := ⟨rfl, rfl⟩
  freshId _ := ⟨⟨_, rfl⟩, rfl⟩
  report _ _ := ⟨⟨_, rfl⟩, rfl⟩
  find _ _ := ⟨rfl, rfl⟩
  findByCorrelation _ _ := ⟨rfl, rfl⟩
  save := save_ends i role
  lease state batch holder j := ⟨_, _, rfl, desk_setStore j i role _, rfl⟩
  breakLease key holder j := by
    refine ends_within.mpr (ends_bind.mpr (ends_get.mpr ?_))
    dsimp only
    split
    · rename_i error herror
      refine ⟨⟨_, rfl⟩, ?_⟩
      simp only [Desk.breakLease, desk, site, herror]
    · rename_i store hok
      refine ⟨⟨_, rfl⟩, ?_⟩
      have hbroken : (desk i role j).breakLease key holder = { desk i role j with store } := by
        simp only [Desk.breakLease, desk, site, hok]
      rw [hbroken]
      exact desk_setStore j i role store
  workload _ := ⟨rfl, rfl⟩
  setWorkload work j := ⟨⟨_, rfl⟩, desk_setWorkload j i role work⟩

end Journal

end ContractNegotiation
