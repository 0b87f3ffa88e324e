import ContractNegotiation.Proofs.Connector

namespace ContractNegotiation

open ContractNegotiation.Action

def LogEntry.tellsOf (id : String) (e : LogEntry) : Bool :=
  (e.message = "negotiation created" || e.message = "negotiation transitioned") &&
    e.fields.contains (.text "negotiation_id" id)

namespace Trail

open LogField

def creation (w : Negotiation) : LogEntry :=
  ⟨.info, "negotiation created", [text "role" w.roleName, text "negotiation_id" w.id,
    text "counter_party_id" w.counterPartyId, text "state" w.state.name]⟩

def step (v w : Negotiation) (count : Nat) : LogEntry :=
  ⟨.info, "negotiation transitioned", [text "role" w.roleName, text "negotiation_id" w.id,
    text "from" v.state.name, text "to" w.state.name,
    int "state_count" ((count : Int).bmod UInt64.size)]⟩

def steps : Negotiation → Nat → List Negotiation → List LogEntry
  | _, _, [] => []
  | v, count, w :: ws => step v w count :: steps w (count + 1) ws

def entries : List Negotiation → List LogEntry
  | [] => []
  | w :: ws => creation w :: steps w 2 ws

variable {v w : Negotiation}

theorem steps_append {u : Negotiation} {count : Nat} {vs : List Negotiation}
    (h : (u :: vs).getLast? = some v) :
    steps u count (vs ++ [w]) = steps u count vs ++ [step v w (count + vs.length)] := by
  induction vs generalizing u count with
  | nil =>
    cases h
    rfl
  | cons x vs ih =>
    rw [List.getLast?_cons_cons] at h
    simp only [List.cons_append, steps, ih h, List.length_cons]
    congr 4
    omega

theorem entries_append {vs : List Negotiation} (h : vs.getLast? = some v) :
    entries (vs ++ [w]) = entries vs ++ [step v w (vs.length + 1)] := by
  cases vs with
  | nil => cases h
  | cons u vs =>
    simp only [List.cons_append, entries, steps_append h, List.length_cons]
    congr 4
    omega

end Trail

namespace Notice

def isStep : Notice → Bool
  | created .. | transitioned .. => true
  | _ => false

theorem tellsOf_entry {notice : Notice} (h : notice.isStep = false) (id : String) :
    notice.entry.tellsOf id = false := by
  cases notice with
  | created | transitioned => cases h
  | _ => simp [entry, LogEntry.tellsOf]

theorem tellsOf_created (role : Role) (key peer : String) (state : State) (id : String) :
    (created role key peer state).entry.tellsOf id = decide (id = key) := by
  simp [entry, LogEntry.tellsOf, LogField.text]

theorem tellsOf_transitioned (role : Role) (key : String) (source target : State) (count : UInt64)
    (id : String) :
    (transitioned role key source target count).entry.tellsOf id = decide (id = key) := by
  simp [entry, LogEntry.tellsOf, LogField.text, LogField.int]

theorem entry_created {role : Role} {w : Negotiation} (hr : w.role = some role) :
    (created role w.id w.counterPartyId w.state).entry = Trail.creation w := by
  simp [entry, Trail.creation, Negotiation.roleName, hr]

theorem entry_transitioned {role : Role} {v w : Negotiation} {count : Nat} (hr : w.role = some role)
    (hc : w.stateCount = .ofNat count) :
    (transitioned role w.id v.state w.state w.stateCount).entry = Trail.step v w count := by
  simp [entry, Trail.step, Negotiation.roleName, hr, hc]

end Notice

structure Archive (n : Nat) where
  network : Network n
  failures : List (Option (Except Fault StoreError)) := []
  log : List LogEntry := []
  versions : List Negotiation := []

namespace Archive

variable {n : Nat}

def report (notice : Notice) : Action (Archive n) Unit :=
  modify fun a => { a with log := a.log ++ [notice.entry] }

def enter (i : Fin n) (record : Negotiation) (holder : String) :
    Action (Archive n) (Except StoreError Negotiation) := do
  match ← .within network (fun a network => { a with network }) (Network.save i record holder) with
  | .error error => pure (.error error)
  | .ok saved => do
    modify fun a => { a with versions := a.versions ++ [saved] }
    pure (.ok saved)

def save (i : Fin n) (record : Negotiation) (holder : String) :
    Action (Archive n) (Except StoreError Negotiation) := do
  let a ← get
  set { a with failures := a.failures.tail }
  match a.failures.head?.join with
  | some (.error fault) => throw fault
  | some (.ok error) => pure (.error error)
  | none => enter i record holder

def environment (ids : Nat → String) (i : Fin n) : Environment (Archive n) :=
  { (Network.environment ids i).within network fun a network => { a with network } with
    report := report
    save := save i }

def store (a : Archive n) (i : Fin n) : Store := (a.network.site i).store

def versionsOf (a : Archive n) (id : String) : List Negotiation := a.versions.filter (·.id = id)

def entriesOf (a : Archive n) (id : String) : List LogEntry := a.log.filter (·.tellsOf id)

/-- The log tells of every version that was stored, and of nothing else. -/
structure Trailed (i : Fin n) (a : Archive n) : Prop where
  tidy : (a.store i).Tidy
  stored : ∀ id, (a.versionsOf id).getLast? = (a.store i).find? id
  counted : ∀ id (k : Nat) (v : Negotiation), (a.versionsOf id)[k]? = some v →
    v.stateCount = .ofNat (k + 1)
  told : ∀ id, a.entriesOf id = Trail.entries (a.versionsOf id)

structure Spares (i : Fin n) (a b : Archive n) : Prop where
  records : (b.store i).records = (a.store i).records
  versions : b.versions = a.versions
  entries : ∀ id, b.entriesOf id = a.entriesOf id

structure Onward (i : Fin n) (a b : Archive n) : Prop where
  trailed : b.Trailed i
  includes : ∀ v, (a.store i).Includes v → (b.store i).Includes v

variable {i : Fin n} {a b c : Archive n} {v w : Negotiation}

theorem Spares.refl (a : Archive n) : Spares i a a := ⟨rfl, rfl, fun _ => rfl⟩

theorem Spares.trans (h : Spares i a b) (h' : Spares i b c) : Spares i a c :=
  ⟨h'.records.trans h.records, h'.versions.trans h.versions,
    fun id => (h'.entries id).trans (h.entries id)⟩

theorem Spares.find? (h : Spares i a b) (id : String) :
    (b.store i).find? id = (a.store i).find? id := by
  simp only [Store.find?, h.records]

theorem Spares.versionsOf (h : Spares i a b) (id : String) : b.versionsOf id = a.versionsOf id := by
  simp only [Archive.versionsOf, h.versions]

theorem Spares.includes (h : Spares i a b) (hv : (a.store i).Includes v) :
    (b.store i).Includes v := by
  simpa only [Store.Includes, h.find?] using hv

theorem Spares.onward (h : Spares i a b) (ha : a.Trailed i) : Onward i a b where
  trailed :=
    { tidy := by simpa only [Store.Tidy, h.records] using ha.tidy
      stored := fun id => by rw [h.versionsOf, h.find?, ha.stored]
      counted := fun id => by simpa only [h.versionsOf] using ha.counted id
      told := fun id => by rw [h.entries, h.versionsOf, ha.told] }
  includes v hv := h.includes hv

theorem Onward.refl (ha : a.Trailed i) : Onward i a a := (Spares.refl a).onward ha

theorem Onward.trans (h : Onward i a b) (h' : Onward i b c) : Onward i a c :=
  ⟨h'.trailed, fun v hv => h'.includes v (h.includes v hv)⟩

theorem Onward.spares (h : Onward i a b) (h' : Spares i b c) : Onward i a c :=
  h.trans (h'.onward h.trailed)

structure Enters (i : Fin n) (a : Archive n) (w : Negotiation) (told : List LogEntry)
    (b : Archive n) : Prop where
  tidy : (b.store i).Tidy
  find? : ∀ id, (b.store i).find? id = if id = w.id then some w else (a.store i).find? id
  versions : b.versions = a.versions ++ [w]
  entries : ∀ id, b.entriesOf id = a.entriesOf id ++ if id = w.id then told else []

theorem Enters.spares {told : List LogEntry} (h : Enters i a w told b) (hb : Spares i b c) :
    Enters i a w told c where
  tidy := by simpa only [Store.Tidy, hb.records] using h.tidy
  find? id := (hb.find? id).trans (h.find? id)
  versions := hb.versions.trans h.versions
  entries id := (hb.entries id).trans (h.entries id)

theorem Enters.after {told : List LogEntry} (h : Enters i b w told c) (ha : Spares i a b) :
    Enters i a w told c where
  tidy := h.tidy
  find? id := by rw [h.find?, ha.find?]
  versions := by rw [h.versions, ha.versions]
  entries id := by rw [h.entries, ha.entries]

theorem Enters.includes {told : List LogEntry} {t : Store} (h : Enters i a w told b)
    (ht : ∀ id, t.find? id = if id = w.id then some w else (a.store i).find? id)
    (hv : t.Includes v) : (b.store i).Includes v := by
  simpa only [Store.Includes, h.find?, ht] using hv

theorem Enters.versionsOf {told : List LogEntry} (h : Enters i a w told b) (id : String) :
    b.versionsOf id = a.versionsOf id ++ if id = w.id then [w] else [] := by
  simp only [Archive.versionsOf, h.versions, List.filter_append, List.filter_singleton]
  by_cases hid : id = w.id
  · simp [hid]
  · have hne : ¬ w.id = id := fun h => hid h.symm
    simp [hid, hne]

theorem Enters.trailed {e : LogEntry} (h : Enters i a w [e] b) (ha : a.Trailed i)
    (hcount : w.stateCount = .ofNat ((a.versionsOf w.id).length + 1))
    (hentries : Trail.entries (a.versionsOf w.id ++ [w]) =
      Trail.entries (a.versionsOf w.id) ++ [e]) : b.Trailed i where
  tidy := h.tidy
  stored id := by
    rw [h.versionsOf, h.find?]
    split
    · simp
    · rw [List.append_nil, ha.stored]
  counted id k v hk := by
    rw [h.versionsOf] at hk
    split at hk
    · rename_i hid
      subst hid
      rcases Nat.lt_trichotomy k (a.versionsOf w.id).length with hlt | rfl | hgt
      · rw [List.getElem?_append_left hlt] at hk
        exact ha.counted w.id k v hk
      · rw [List.getElem?_concat_length] at hk
        exact Option.some.inj hk ▸ hcount
      · rw [List.getElem?_eq_none (by simp; omega)] at hk
        cases hk
    · rw [List.append_nil] at hk
      exact ha.counted id k v hk
  told id := by
    rw [h.entries, h.versionsOf, ha.told]
    split
    · rename_i hid
      rw [hid, hentries]
    · simp only [List.append_nil]

theorem Trailed.stateCount_eq (ha : a.Trailed i) (hv : (a.store i).find? v.id = some v) :
    v.stateCount = .ofNat (a.versionsOf v.id).length := by
  rw [← ha.stored] at hv
  have hne : (a.versionsOf v.id) ≠ [] := fun h => by simp [h] at hv
  have hpos := List.length_pos_iff.mpr hne
  rw [List.getLast?_eq_getElem?] at hv
  have hc := ha.counted v.id _ v hv
  rwa [Nat.sub_add_cancel hpos] at hc

theorem Enters.trailed_of_moved {role : Role} {event : Event} {agreementId peer : String}
    {t : Store}
    (ha : a.Trailed i) (hm : (a.store i).Moved v event agreementId peer w t)
    (hrole : v.role = some role)
    (h : Enters i a w [(Notice.transitioned role w.id v.state w.state w.stateCount).entry] b) :
    b.Trailed i := by
  have hid := hm.follows.id
  have hcount : w.stateCount = .ofNat ((a.versionsOf w.id).length + 1) := by
    rw [hid, hm.follows.stateCount, ha.stateCount_eq hm.stored, UInt64.ofNat_add]
    rfl
  have hr : w.role = some role := by
    obtain ⟨now, next, message, ht, rfl⟩ := hm.follows
    rw [Negotiation.successor_eq]
    exact (Negotiation.row_of_transition ht).continues.role.trans hrole
  have hlast : (a.versionsOf w.id).getLast? = some v := by rw [ha.stored, hid, hm.stored]
  refine h.trailed ha hcount ?_
  rw [Trail.entries_append hlast, Notice.entry_transitioned hr hcount]

theorem Enters.trailed_of_opened {role : Role} {t : Store} (ha : a.Trailed i)
    (ho : (a.store i).Opened w t) (hcount : w.stateCount = 1) (hrole : w.role = some role)
    (h : Enters i a w [(Notice.created role w.id w.counterPartyId w.state).entry] b) :
    b.Trailed i := by
  have hnone : a.versionsOf w.id = [] := by
    rw [← List.getLast?_eq_none_iff, ha.stored, ho.fresh]
  refine h.trailed ha ?_ ?_
  · rw [hnone, hcount]
    rfl
  · rw [hnone, Notice.entry_created hrole]
    rfl

section Conduct

variable {α β : Type}

def Leaves (i : Fin n) (x : Action (Archive n) α) : Prop :=
  ∀ a, Ends x a fun r b => Spares i a b ∧ ∃ y, r = .ok y

def Tells (i : Fin n) (x : Action (Archive n) α) : Prop :=
  ∀ a, a.Trailed i → Ends x a fun _ b => Onward i a b

theorem Leaves.bind_ends {x : Action (Archive n) α} {g : α → Action (Archive n) β}
    {Q : Except Fault β → Archive n → Prop} (hx : Leaves i x)
    (h : ∀ y b, Spares i a b → Ends (g y) b Q) : Ends (x >>= g) a Q := by
  refine (hx a).bind ?_ ?_
  · intro y b hb
    exact h y b hb.1
  · rintro fault b ⟨-, y, hy⟩
    cases hy

theorem Leaves.tells {x : Action (Archive n) α} (hx : Leaves i x) : Tells i x :=
  fun a ha => (hx a).mono fun _ _ hb => hb.1.onward ha

theorem tells_pure (y : α) : Tells i (pure y) := fun _ ha => .refl ha

theorem Tells.bind {x : Action (Archive n) α} {g : α → Action (Archive n) β} (hx : Tells i x)
    (hg : ∀ y, Tells i (g y)) : Tells i (x >>= g) := by
  intro a ha
  refine (hx a ha).bind ?_ fun _ _ hb => hb
  intro y b hb
  exact (hg y b hb.trailed).mono fun _ c hc => hb.trans hc

variable {ids : Nat → String}

theorem spares_setSite (a : Archive n) {site : Site}
    (h : site.store.records = (a.store i).records) :
    Spares i a { a with network := a.network.setSite i site } := by
  refine ⟨?_, rfl, fun _ => rfl⟩
  rw [← h]
  simp only [Archive.store, Network.site_setSite, if_pos]

theorem now_leaves : Leaves i (environment ids i).now := fun a => ⟨.refl a, _, rfl⟩

theorem freshId_leaves : Leaves i (environment ids i).freshId :=
  fun _ => ⟨⟨rfl, rfl, fun _ => rfl⟩, _, rfl⟩

theorem workload_leaves (role : Role) : Leaves i ((environment ids i).workload role) :=
  fun a => ⟨.refl a, _, rfl⟩

theorem setWorkload_leaves (role : Role) (w : Workload) :
    Leaves i ((environment ids i).setWorkload role w) := by
  refine fun a => ⟨spares_setSite a ?_, _, rfl⟩
  rw [Site.store_setWorkload]
  rfl

theorem update_leaves (role : Role) (f : Workload → Workload) :
    Leaves i ((environment ids i).update role f) :=
  fun _ => (workload_leaves role).bind_ends fun _ b hb =>
    (setWorkload_leaves role _ b).mono fun _ _ hc => ⟨hb.trans hc.1, hc.2⟩

theorem report_leaves {notice : Notice} (h : notice.isStep = false) :
    Leaves i ((environment ids i).report notice) := by
  refine fun a => ⟨⟨rfl, rfl, fun id => ?_⟩, _, rfl⟩
  simp [entriesOf, List.filter_append, Notice.tellsOf_entry h]

theorem breakLease_leaves (id holder : String) :
    Leaves i ((environment ids i).breakLease id holder) := by
  refine fun a => ends_within.mpr (ends_bind.mpr (ends_get.mpr ?_))
  dsimp only
  split
  · exact ⟨.refl a, _, rfl⟩
  · rename_i store h
    refine ⟨spares_setSite a ?_, _, rfl⟩
    rcases Store.breakLease_cases h with rfl | rfl <;> rfl

theorem find_ends (id : String) : Ends ((environment ids i).find id) a fun r b =>
    b = a ∧ r = .ok ((a.store i).find? id) := ⟨rfl, rfl⟩

theorem findByCorrelation_ends (c : String) :
    Ends ((environment ids i).findByCorrelation c) a fun r b =>
      b = a ∧ r = .ok ((a.store i).findByCorrelation? c) := ⟨rfl, rfl⟩

theorem lease_ends (state : State) (role : Role) (batch : Nat) (holder : String) :
    Ends ((environment ids i).lease state role batch holder) a fun r b => Spares i a b ∧
      ∃ ns, r = .ok ns ∧ ∀ v ∈ ns, v ∈ (a.store i).records ∧ v.role = some role := by
  have hl : (a.store i).Leases state.code (some role) holder
      ((a.store i).leaseNext state.code (some role) batch holder a.network.now).1
      ((a.store i).leaseNext state.code (some role) batch holder a.network.now).2 :=
    Store.leases_of_leaseNext rfl
  exact ⟨spares_setSite a hl.records, _, rfl, fun v hv => ⟨hl.stored v hv, hl.role v hv⟩⟩

theorem transition_ends (v : Negotiation) (event : Event) :
    Ends ((environment ids i).transition v event) a fun r b => Spares i a b ∧
      ∃ now agreementId, r = .ok (v.transition event now agreementId) := by
  refine now_leaves.bind_ends fun now b hb => ?_
  split
  · refine freshId_leaves.bind_ends fun id c hc => ?_
    exact ⟨hb.trans hc, now, id, rfl⟩
  · exact ⟨hb, now, "", rfl⟩

def Saves (i : Fin n) (a : Archive n) (record : Negotiation)
    (r : Except Fault (Except StoreError Negotiation)) (b : Archive n) : Prop :=
  (Spares i a b ∧ ∀ w, r ≠ .ok (.ok w)) ∨
    ∃ w t, r = .ok (.ok w) ∧ (a.store i).Saved record w t ∧ Enters i a w [] b

theorem enter_ends (record : Negotiation) (holder : String) (ha : (a.store i).Tidy) :
    Ends (enter i record holder) a (Saves i a record) := by
  refine ends_bind.mpr (ends_within.mpr ?_)
  unfold Ends
  rw [Network.save_apply]
  cases h : (a.network.site i).store.save record holder a.network.now with
  | error error => exact .inl ⟨.refl a, by simp⟩
  | ok saved =>
    have hs := Store.saved_of_save h
    refine .inr ⟨saved.1, saved.2, rfl, hs, ?_, fun id => ?_, rfl, fun id => ?_⟩
    · simp only [Archive.store, Network.site_setStore]
      exact hs.tidy ha
    · simp only [Archive.store, Network.site_setStore]
      exact hs.find? id
    · simp [entriesOf]

theorem save_ends (record : Negotiation) (holder : String) (ha : (a.store i).Tidy) :
    Ends ((environment ids i).save record holder) a (Saves i a record) := by
  refine ends_bind.mpr (ends_get.mpr (ends_bind.mpr ?_))
  change Ends _ { a with failures := a.failures.tail } _
  have hspares : Spares i a { a with failures := a.failures.tail } := ⟨rfl, rfl, fun _ => rfl⟩
  split
  · exact .inl ⟨hspares, by simp⟩
  · exact .inl ⟨hspares, by simp⟩
  · refine (enter_ends (a := { a with failures := a.failures.tail }) record holder ha).mono ?_
    rintro r b (⟨hb, hr⟩ | ⟨w, t, hr, hs, hb⟩)
    · exact .inl ⟨hspares.trans hb, hr⟩
    · exact .inr ⟨w, t, hr, hs, hb.after hspares⟩

theorem Enters.report {notice : Notice} (h : Enters i a w [] b)
    (he : ∀ id, notice.entry.tellsOf id = decide (id = w.id)) :
    Ends ((environment ids i).report notice) b fun r c =>
      Enters i a w [notice.entry] c ∧ ∃ y, r = .ok y := by
  refine ⟨⟨h.tidy, h.find?, h.versions, fun id => ?_⟩, _, rfl⟩
  have hb := h.entries id
  rw [ite_self, List.append_nil] at hb
  rw [← hb, entriesOf, List.filter_append, List.filter_singleton, he, entriesOf]
  by_cases hid : id = w.id <;> simp [hid]

variable {m : Manager}

variable (ids) in
theorem persist_onward {next : Negotiation} {event : Event} {now : Instant} {agreementId : String}
    {message : Option RemoteMessage} (peer holder : String) (ha : a.Trailed i)
    (hv : (a.store i).Includes v) (hrole : v.role = some m.role)
    (ht : v.transition event now agreementId = .applied next message) :
    Ends (m.persist (environment ids i) v (next.correlate peer) holder) a fun _ b =>
      Onward i a b := by
  refine (save_ends _ holder ha.tidy).bind ?_ ?_
  · rintro (error | w) b (⟨hb, hr⟩ | ⟨w', t, hr, hs, hb⟩)
    · exact hb.onward ha
    · cases hr
    · exact absurd rfl (hr w)
    · cases hr
      obtain ⟨hm, -⟩ := hv.moved ht hs
      refine (update_leaves m.role _).bind_ends fun _ c hc => ?_
      refine ((hb.spares hc).report fun id => Notice.tellsOf_transitioned ..).bind ?_ ?_
      · rintro _ d ⟨hd, -⟩
        exact ⟨hd.trailed_of_moved ha hm hrole, fun x hx => hd.includes hm.find? (hm.includes hx)⟩
      · rintro fault d ⟨-, y, hy⟩
        cases hy
  · rintro fault b (⟨hb, -⟩ | ⟨w, t, hr, -⟩)
    · exact hb.onward ha
    · cases hr

theorem insert_tells (v : Negotiation) : Tells i (m.insert (environment ids i) v) := by
  intro a ha
  refine now_leaves.bind_ends fun now b hb => ?_
  have hab := hb.onward ha
  refine (save_ends _ "" hab.trailed.tidy).bind ?_ ?_
  · rintro (error | w) c (⟨hc, hr⟩ | ⟨w', t, hr, hs, hc⟩)
    · exact hab.spares hc
    · cases hr
    · exact absurd rfl (hr w)
    · cases hr
      obtain ⟨ho, hw⟩ := Store.Opened.of_saved hs rfl
      have hopened : w.stateCount = 1 ∧ w.role = some m.role := by
        rw [hw]
        exact ⟨rfl, rfl⟩
      refine (hc.report fun id => Notice.tellsOf_created ..).bind ?_ ?_
      · rintro _ d ⟨hd, -⟩
        have hbd : Onward i b d :=
          ⟨hd.trailed_of_opened hab.trailed ho hopened.1 hopened.2,
            fun x hx => hd.includes ho.find? (ho.includes hx)⟩
        refine (update_leaves m.role _).bind_ends fun _ e he => ?_
        exact hab.trans (hbd.spares he)
      · rintro fault d ⟨-, y, hy⟩
        cases hy
  · rintro fault c (⟨hc, -⟩ | ⟨w, t, hr, -⟩)
    · exact hab.spares hc
    · cases hr

end Conduct

end Archive

end ContractNegotiation
