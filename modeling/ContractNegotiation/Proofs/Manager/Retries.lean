import ContractNegotiation.Proofs.Manager.Desk
import ContractNegotiation.Proofs.Manager.Discipline

namespace ContractNegotiation

open ContractNegotiation.Action

namespace Deed

def sending? (id : String) (count : UInt64) : Deed → Option Sending
  | sent _ (some v) now answer =>
    if v.id = id ∧ v.stateCount = count then some ⟨v, now, answer⟩ else none
  | _ => none

def successor? (id : String) (count : UInt64) : Deed → Option (String × Negotiation)
  | saved n holder (.ok w) => if n.id = id ∧ n.stateCount = count then some (holder, w) else none
  | _ => none

end Deed

def sendings (id : String) (count : UInt64) (deeds : List Deed) : List Sending :=
  deeds.filterMap (Deed.sending? id count)

def successors (id : String) (count : UInt64) (deeds : List Deed) : List (String × Negotiation) :=
  deeds.filterMap (Deed.successor? id count)

namespace Desk

def file (m : Manager) (d : Desk) (id : String) : File where
  record := m.own (d.store.find? id)
  entry := d.work.retries.entries.get? id
  sends count := sendings id count d.deeds
  successors count := successors id count d.deeds

structure Apart (m : Manager) (d d' : Desk) : Prop where
  tidy : d.store.Tidy → d'.store.Tidy
  own : ∀ id, m.own (d'.store.find? id) = m.own (d.store.find? id)
  leases : ∀ id, m.own (d.store.find? id) ≠ none →
    d'.store.leases.get? id = d.store.leases.get? id
  retries : d'.work.retries = d.work.retries

structure Answered (m : Manager) (message : RemoteMessage) (answer : DispatchResult)
    (d d' : Desk) : Prop extends Apart m d d' where
  now : d.now ≤ d'.now
  refusals : d'.refusals = d.refusals
  deeds : d'.deeds =
    d.deeds ++ [.sent message (d.store.find? message.processId) d.now answer]

structure Holds (m : Manager) (d : Desk) (n : Negotiation) : Prop where
  stored : d.store.find? n.id = some n
  role : n.role = some m.role
  lease : ∃ lease, d.store.leases.get? n.id = some lease ∧ lease.holder = m.leaseHolder

structure Spares (m : Manager) (key : String) (d d' : Desk) : Prop where
  tidy : d.store.Tidy → d'.store.Tidy
  files : ∀ id, id ≠ key → d'.file m id = d.file m id
  leases : ∀ id, id ≠ key → m.own (d.store.find? id) ≠ none →
    d'.store.leases.get? id = d.store.leases.get? id
  now : d.now ≤ d'.now
  refusals : d.refusals = [] → d'.refusals = []

structure Sound (m : Manager) (d : Desk) : Prop where
  tidy : d.store.Tidy
  refusals : d.refusals = []
  named : m.own (d.store.find? "") = none
  files : ∀ id, (d.file m id).Disciplined m

variable {m : Manager} {d d' d'' : Desk} {n w next : Negotiation} {holder key : String}
  {answer : Except StoreError Negotiation}

theorem Spares.trans (h : d.Spares m key d') (h' : d'.Spares m key d'') : d.Spares m key d'' where
  tidy ht := h'.tidy (h.tidy ht)
  files id hid := (h'.files id hid).trans (h.files id hid)
  leases id hid hown := by
    have hrecord : m.own (d'.store.find? id) = m.own (d.store.find? id) :=
      congrArg File.record (h.files id hid)
    rw [h'.leases id hid (hrecord ▸ hown), h.leases id hid hown]
  now := Int.le_trans h.now h'.now
  refusals hd := h'.refusals (h.refusals hd)

theorem spares_of_eq (hstore : d'.store.records = d.store.records)
    (hleases : ∀ id, id ≠ key → d'.store.leases.get? id = d.store.leases.get? id)
    (hretries : ∀ id, id ≠ key →
      d'.work.retries.entries.get? id = d.work.retries.entries.get? id)
    (hdeeds : d'.deeds = d.deeds) (hnow : d'.now = d.now) (hrefusals : d'.refusals = d.refusals) :
    d.Spares m key d' where
  tidy := by simp only [Store.Tidy, hstore, imp_self]
  files id hid := by simp only [file, Store.find?, hstore, hretries id hid, hdeeds]
  leases id hid _ := hleases id hid
  now := by rw [hnow]; exact Int.le_refl _
  refusals := by rw [hrefusals]; exact id

theorem spares_breakLease (d : Desk) (key holder : String) :
    d.Spares m key (d.breakLease key holder) ∧
      (d.breakLease key holder).file m key = d.file m key := by
  unfold breakLease
  split
  · exact ⟨spares_of_eq rfl (fun _ _ => rfl) (fun _ _ => rfl) rfl rfl rfl, rfl⟩
  · rename_i store hstore
    rcases Store.breakLease_cases hstore with rfl | rfl
    · exact ⟨spares_of_eq rfl (fun _ _ => rfl) (fun _ _ => rfl) rfl rfl rfl, rfl⟩
    · refine ⟨spares_of_eq rfl (fun id hid => ?_) (fun _ _ => rfl) rfl rfl rfl, rfl⟩
      exact (Table.get?_erase _ _ _).trans (if_neg hid)

theorem spares_forget (d : Desk) (key : String) : d.Spares m key (d.forget key) ∧
    (d.forget key).file m key = { d.file m key with entry := none } := by
  refine ⟨spares_of_eq rfl (fun _ _ => rfl) (fun id hid => ?_) rfl rfl rfl, ?_⟩
  · exact (RetryLog.get?_clear _ _ _).trans (if_neg hid)
  · simp [file, forget, Workload.clearRetries, RetryLog.get?_clear]

theorem spares_mapQueue (d : Desk) (key : String) (f : CommandQueue → CommandQueue) :
    d.Spares m key (d.mapQueue f) ∧ (d.mapQueue f).file m key = d.file m key :=
  ⟨spares_of_eq rfl (fun _ _ => rfl) (fun _ _ => rfl) rfl rfl rfl, rfl⟩

theorem sendings_append (id : String) (count : UInt64) (deeds deeds' : List Deed) :
    sendings id count (deeds ++ deeds') = sendings id count deeds ++ sendings id count deeds' :=
  List.filterMap_append

theorem successors_append (id : String) (count : UInt64) (deeds deeds' : List Deed) :
    successors id count (deeds ++ deeds') =
      successors id count deeds ++ successors id count deeds' := List.filterMap_append

theorem Answered.spares {message : RemoteMessage} {answer : DispatchResult}
    (h : d.Answered m message answer d') (hn : d.Holds m n) (hid : message.processId = n.id) :
    d.Spares m n.id d' ∧ d'.Holds m n ∧ d'.file m n.id = { d.file m n.id with
      sends := Function.update (d.file m n.id).sends n.stateCount
        ((d.file m n.id).sends n.stateCount ++ [⟨n, d.now, answer⟩]) } := by
  have hdeeds := h.deeds
  rw [hid, hn.stored] at hdeeds
  have hown : m.own (d.store.find? n.id) = some n := m.own_eq_some.mpr ⟨hn.stored, hn.role⟩
  have hsuccessors (id : String) (count : UInt64) :
      successors id count d'.deeds = successors id count d.deeds := by
    rw [hdeeds, successors_append]
    exact List.append_nil _
  have hsendings (id : String) (count : UInt64) (hne : ¬ (n.id = id ∧ n.stateCount = count)) :
      sendings id count d'.deeds = sendings id count d.deeds := by
    rw [hdeeds, sendings_append]
    simp [sendings, Deed.sending?, hne]
  refine ⟨⟨h.tidy, fun id hne => ?_, fun id _ => h.leases id, h.now, ?_⟩, ⟨?_, hn.role, ?_⟩, ?_⟩
  · simp only [file, h.own, h.retries, hsuccessors]
    simp only [hsendings id _ fun he => hne he.1.symm]
  · rw [h.refusals]
    exact id
  · exact (m.own_eq_some.mp ((h.own n.id).trans hown)).1
  · rw [h.leases n.id (by simp [hown])]
    exact hn.lease
  · simp only [file, h.own, h.retries, hsuccessors]
    congr 1
    funext count
    by_cases hcount : count = n.stateCount
    · subst hcount
      rw [Function.update_self, hdeeds, sendings_append]
      simp [sendings, Deed.sending?]
    · rw [Function.update_of_ne hcount, hsendings n.id count fun he => hcount he.2.symm]

theorem Saves.spares_error {e : StoreError} (h : d.Saves n holder (.error e) d') (key : String) :
    d.Spares m key d' ∧ d'.file m key = d.file m key := by
  cases h
  have hsendings (id : String) (count : UInt64) :
      sendings id count (d.deeds ++ [.saved n holder (.error e)]) = sendings id count d.deeds := by
    rw [sendings_append]
    exact List.append_nil _
  have hsuccessors (id : String) (count : UInt64) :
      successors id count (d.deeds ++ [.saved n holder (.error e)]) =
        successors id count d.deeds := by
    rw [successors_append]
    exact List.append_nil _
  have hfile (id : String) : (d.noting n holder (.error e)).file m id = d.file m id := by
    simp only [file, noting, hsendings, hsuccessors]
  refine ⟨⟨id, fun id _ => hfile id, fun _ _ _ => rfl, Int.le_refl _, fun hd => ?_⟩, hfile key⟩
  simp [noting, hd]

theorem Saves.spares_ok (h : d.Saves n holder (.ok w) d') (hrole : n.role = some m.role) :
    d.Spares m n.id d' ∧ d'.file m n.id = { d.file m n.id with
      record := some w
      successors := Function.update (d.file m n.id).successors n.stateCount
        ((d.file m n.id).successors n.stateCount ++ [(holder, w)]) } := by
  have hsaved := h.saved
  have hown : m.own (some w) = some w := m.own_eq_some.mpr ⟨rfl, hsaved.role.trans hrole⟩
  have hdeeds : d'.deeds = d.deeds ++ [.saved n holder (.ok w)] := by
    cases h
    rfl
  have hretries : d'.work = d.work := by
    cases h
    rfl
  have hsendings (id : String) (count : UInt64) :
      sendings id count d'.deeds = sendings id count d.deeds := by
    rw [hdeeds, sendings_append]
    exact List.append_nil _
  have hsuccessors (id : String) (count : UInt64) (hne : ¬ (n.id = id ∧ n.stateCount = count)) :
      successors id count d'.deeds = successors id count d.deeds := by
    rw [hdeeds, successors_append]
    simp [successors, Deed.successor?, hne]
  refine ⟨⟨hsaved.tidy, fun id hne => ?_, fun id _ _ => ?_, ?_, ?_⟩, ?_⟩
  · simp only [file, hsaved.find?, hsaved.id, if_neg hne, hretries, hsendings]
    simp only [hsuccessors id _ fun he => hne he.1.symm]
  · rw [hsaved.leases]
  · cases h
    exact Int.le_refl _
  · cases h
    intro hd
    simp [noting, hd]
  · simp only [file, hsaved.find?, hsaved.id, if_pos, hown, hretries, hsendings]
    congr 1
    funext count
    by_cases hcount : count = n.stateCount
    · subst hcount
      rw [Function.update_self, hdeeds, successors_append]
      simp [successors, Deed.successor?]
    · rw [Function.update_of_ne hcount, hsuccessors n.id count fun he => hcount he.2.symm]

theorem Persists.spares_ok (h : d.Persists n holder (.ok w) d') (hrole : n.role = some m.role) :
    d.Spares m n.id d' ∧ d'.file m n.id = {
      record := some w
      entry := none
      sends := (d.file m n.id).sends
      successors := Function.update (d.file m n.id).successors n.stateCount
        ((d.file m n.id).successors n.stateCount ++ [(holder, w)]) } := by
  cases h with
  | written _ d₁ hs =>
    obtain ⟨hspares, hfile⟩ := hs.spares_ok hrole
    rw [hs.saved.id]
    obtain ⟨hforget, hforgotten⟩ := spares_forget (m := m) d₁ n.id
    exact ⟨hspares.trans hforget, by rw [hforgotten, hfile]⟩

theorem Persists.spares_error {e : StoreError} (h : d.Persists n holder (.error e) d')
    (key : String) : d.Spares m key d' ∧ d'.file m key = d.file m key := by
  cases h with
  | refused _ _ hs => exact hs.spares_error key

theorem Holds.persists (h : d.Holds m n) (hrefusals : d.refusals = []) (hnamed : n.id ≠ "")
    (hid : next.id = n.id) (hcount : next.stateCount = n.stateCount)
    (hp : d.Persists next m.leaseHolder answer d') :
    (n.stateCount = 0 ∧ ∃ e, answer = .error e) ∨
      n.stateCount ≠ 0 ∧ answer = .ok { next with stateCount := n.stateCount + 1 } := by
  have hans : d.answer next m.leaseHolder = d.store.save next m.leaseHolder d.now := by
    simp [Desk.answer, hrefusals]
  have hstored := h.stored
  rw [← hid] at hstored hnamed
  by_cases hc : n.stateCount = 0
  · -- A save with count zero is an insertion, and the record is there already.
    refine .inl ⟨hc, ?_⟩
    have herror : d.store.save next m.leaseHolder d.now = .error (.alreadyStored next.id) :=
      Store.save_stored hnamed (hcount.trans hc) hstored
    cases hp with
    | refused e _ _ => exact ⟨e, rfl⟩
    | written _ _ hs =>
      cases hs with
      | written _ _ hw =>
        rw [hans, herror] at hw
        cases hw
  · refine .inr ⟨hc, ?_⟩
    have hheld (lease : Lease) (hlease : d.store.leases.get? next.id = some lease) :
        lease.holder = m.leaseHolder := by
      obtain ⟨own, hown, hholder⟩ := h.lease
      rw [hid, hown] at hlease
      exact Option.some.inj hlease ▸ hholder
    have hok : d.store.save next m.leaseHolder d.now = _ :=
      Store.save_next hnamed (hcount ▸ hc) hstored hcount.symm hheld
    cases hp with
    | refused _ _ hs =>
      cases hs with
      | refused _ he =>
        rw [hans, hok] at he
        cases he
    | written _ _ hs =>
      cases hs with
      | written _ _ hw =>
        rw [hans, hok] at hw
        cases hw
        rw [hcount]

theorem countFailure_waits {b : Backoff} (h : d.countFailure b key = (false, d')) :
    ((RetryEntry.count (d.file m key).entry + 1 : Nat) : Int) < b.maxRetries ∧ d.Spares m key d' ∧
      d'.file m key = { d.file m key with
        entry := some ⟨RetryEntry.count (d.file m key).entry + 1,
          d.now.later (b.delay (RetryEntry.count (d.file m key).entry + 1 : Nat))⟩ } := by
  unfold countFailure at h
  cases hrec : d.work.retries.recordFailure b key d.now with
  | mk exhausted retries =>
    rw [hrec] at h
    cases h
    obtain ⟨hlt, hentries⟩ := RetryLog.recordFailure_waits hrec
    rw [RetryLog.attempts_eq] at hlt hentries
    refine ⟨hlt, spares_of_eq rfl (fun _ _ => rfl) (fun id hid => ?_) rfl rfl rfl, ?_⟩
    · exact (hentries id).trans (if_neg hid)
    · simp only [file, hentries, if_pos]

theorem countFailure_exhausted {b : Backoff} (h : d.countFailure b key = (true, d')) :
    b.maxRetries ≤ ((RetryEntry.count (d.file m key).entry + 1 : Nat) : Int) ∧
      d' = d.forget key := by
  unfold countFailure at h
  cases hrec : d.work.retries.recordFailure b key d.now with
  | mk exhausted retries =>
    rw [hrec] at h
    cases h
    obtain ⟨hle, rfl⟩ := RetryLog.recordFailure_exhausted hrec
    rw [RetryLog.attempts_eq] at hle
    exact ⟨hle, rfl⟩

theorem Holds.record (h : d.Holds m n) : (d.file m n.id).record = some n :=
  m.own_eq_some.mpr ⟨h.stored, h.role⟩

theorem Sound.named_of_holds (h : d.Sound m) (hn : d.Holds m n) : n.id ≠ "" := by
  intro hid
  have hrecord := hn.record
  rw [hid] at hrecord
  rw [file, h.named] at hrecord
  cases hrecord

theorem Persists.concludes {f : File} {new : List Sending} {entry : Option RetryEntry}
    (h : d.Persists next m.leaseHolder answer d') (hf : f.Disciplined m)
    (hrecord : f.record = some n) (hn : d.Holds m n) (hrefusals : d.refusals = [])
    (hnamed : n.id ≠ "")
    (hfile : d.file m n.id = { f with
      entry
      sends := Function.update f.sends n.stateCount (f.sends n.stateCount ++ new) })
    (hid : next.id = n.id) (hcount : next.stateCount = n.stateCount) (hrole : next.role = n.role)
    (hversion : n.stateCount ≠ 0 → Version m (f.sends n.stateCount ++ new)
      [(m.leaseHolder, { next with stateCount := n.stateCount + 1 })]) :
    d.Spares m n.id d' ∧ (d'.file m n.id).Disciplined m := by
  rcases hn.persists hrefusals hnamed hid hcount h with ⟨hc, e, rfl⟩ | ⟨hc, rfl⟩
  · obtain ⟨hspares, hsame⟩ := h.spares_error (m := m) n.id
    refine ⟨hspares, ?_⟩
    rw [hsame, hfile]
    exact hf.stay hrecord fun hne => absurd hc hne
  · specialize hversion hc
    generalize hw : { next with stateCount := n.stateCount + 1 } = w at h hversion
    obtain ⟨hspares, hwritten⟩ := h.spares_ok (hrole.trans hn.role)
    rw [hid] at hspares hwritten
    refine ⟨hspares, ?_⟩
    rw [hwritten, hfile, hcount]
    exact hf.close hrecord hc (by rw [← hw]) hversion

theorem Answered.concludes {message : RemoteMessage} {sent : DispatchResult}
    (h : d.Answered m message sent d') (hd : d.Sound m) (hn : d.Holds m n)
    (hdue : d.work.retries.isDue n.id d.now = true) (hmessage : message.processId = n.id)
    (hp : (d'.forget n.id).Persists next m.leaseHolder answer d'') (hid : next.id = n.id)
    (hcount : next.stateCount = n.stateCount) (hrole : next.role = n.role)
    (hpatient : n.stateCount ≠ 0 → (∃ text, sent = .transient text) →
      (sendings n.id n.stateCount d.deeds).length + 1 = m.options.backoff.limit)
    (herror : next.state = .error ↔
      (∃ text, sent = .transient text) ∨ ∃ text, sent = .fatal text) :
    d.Spares m n.id d'' ∧ (d''.file m n.id).Disciplined m := by
  obtain ⟨hspares, hholds, hfile⟩ := h.spares hn hmessage
  -- The attempts are forgotten before the save, so they count for nothing even if it is refused.
  obtain ⟨hforget, hforgotten⟩ := spares_forget (m := m) d' n.id
  rw [hfile] at hforgotten
  have hrefusals := hforget.refusals (hspares.refusals hd.refusals)
  obtain ⟨hlast, hdisciplined⟩ := hp.concludes (hd.files n.id) hn.record
    ⟨hholds.stored, hholds.role, hholds.lease⟩ hrefusals (hd.named_of_holds hn) hforgotten hid
    hcount hrole fun hc => by
      have hcurrent := ((hd.files n.id).current n hn.record hc).2
      exact hcurrent.concluded rfl (RetryLog.isDue_iff.mp hdue) (hpatient hc) herror
  exact ⟨(hspares.trans hforget).trans hlast, hdisciplined⟩

def Sends (m : Manager) (message : RemoteMessage) (d : Desk) (r : Except Fault DispatchResult)
    (d' : Desk) : Prop :=
  ∃ answer, r = .ok answer ∧ d.Answered m message answer d'

theorem Spares.refl (d : Desk) (key : String) : d.Spares m key d :=
  spares_of_eq rfl (fun _ _ => rfl) (fun _ _ => rfl) rfl rfl rfl

theorem silent_disciplined {agreementId : String} (hd : d.Sound m) (hn : d.Holds m n)
    (ht : n.transition m.turn d.now agreementId = .applied next none)
    (hp : d.Persists next m.leaseHolder answer d') :
    d.Spares m n.id d' ∧ (d'.file m n.id).Disciplined m := by
  have hrow := Negotiation.row_of_transition ht
  have hc := hrow.continues
  have hfile : d.file m n.id = { d.file m n.id with
      sends := Function.update (d.file m n.id).sends n.stateCount
        ((d.file m n.id).sends n.stateCount ++ []) } := by
    rw [List.append_nil, Function.update_eq_self]
  refine hp.concludes (hd.files n.id) hn.record hn hd.refusals (hd.named_of_holds hn) hfile hc.id
    hc.stateCount hc.role fun hcount => ?_
  have hcurrent := ((hd.files n.id).current n hn.record hcount).2
  rw [List.append_nil]
  refine hcurrent.replaced (hrow.state_ne_error fun cause he => by cases he) fun _ => ?_
  -- A version that messages were sent from has no silent turn.
  by_contra hsends
  have hspeaks := hrow.isSome_message
  rw [hcurrent.speaks hsends] at hspeaks
  cases hspeaks

theorem Turned.disciplined (hd : d.Sound m) (hn : d.Holds m n)
    (hdue : d.work.retries.isDue n.id d.now = true) (ht : d.Turned m (Sends m) n d') :
    d.Spares m n.id d' ∧ (d'.file m n.id).Disciplined m := by
  cases ht with
  | passed => exact ⟨.refl d n.id, hd.files n.id⟩
  | silent agreementId next answer _ ht hp => exact silent_disciplined hd hn ht hp
  | threw _ _ _ fault _ _ hs =>
    obtain ⟨answer, hr, -⟩ := hs
    cases hr
  | acknowledged agreementId next message peer answer d₁ _ ht hs hp =>
    obtain ⟨_, ⟨⟩, ha⟩ := hs
    have hrow := Negotiation.row_of_transition ht
    have hc := hrow.continues
    refine ha.concludes hd hn hdue hrow.routing.1 hp ?_ ?_ ?_ ?_ ?_
    · rw [Negotiation.correlate_eq, hc.id]
    · rw [Negotiation.correlate_eq, hc.stateCount]
    · rw [Negotiation.correlate_eq, hc.role]
    · rintro - ⟨text, h⟩
      cases h
    · have hstate : (next.correlate peer).state = next.state := by
        rw [Negotiation.correlate_eq]
        rfl
      have hne := hrow.state_ne_error fun cause he => by cases he
      simp [hstate, hne]
  | waits agreementId next message text d₁ _ ht hs hcount =>
    obtain ⟨_, ⟨⟩, ha⟩ := hs
    have hrow := Negotiation.row_of_transition ht
    obtain ⟨hspares, -, hfile⟩ := ha.spares hn hrow.routing.1
    obtain ⟨hlt, hspares', hfile'⟩ := countFailure_waits (m := m) hcount
    refine ⟨hspares.trans hspares', ?_⟩
    rw [hfile] at hlt hfile'
    rw [hfile']
    refine (hd.files n.id).stay hn.record fun hc => ?_
    have hcurrent := ((hd.files n.id).current n hn.record hc).2
    rw [hcurrent.count] at hlt ⊢
    refine hcurrent.waits rfl ⟨text, rfl⟩ (RetryLog.isDue_iff.mp hdue) hlt ?_ rfl ?_
    · exact hrow.isSome_message.symm
    · have hpause := m.options.backoff.min_le_delay ((d.file m n.id).sends n.stateCount).length
      exact Int.add_le_add ha.now (Int.mul_le_mul_of_nonneg_right hpause (by decide))
  | exhausted agreementId next message text cause answer d₁ _ _ ht hs hcount hp =>
    obtain ⟨_, ⟨⟩, ha⟩ := hs
    have hrow := Negotiation.row_of_transition ht
    obtain ⟨hle, rfl⟩ := countFailure_exhausted (m := m) hcount
    obtain ⟨-, -, hfile⟩ := ha.spares hn hrow.routing.1
    rw [hfile] at hle
    rw [Negotiation.next_fail hrow.isTerminal] at hp
    refine ha.concludes hd hn hdue hrow.routing.1 hp rfl rfl rfl ?_ ?_
    · rintro hc -
      have hcurrent := ((hd.files n.id).current n hn.record hc).2
      have hfew := hcurrent.few
      rw [hcurrent.count] at hle
      simp only [Backoff.limit, Options.backoff, file] at hle hfew ⊢
      omega
    · exact iff_of_true (Negotiation.state_enter n .error d₁.now) (.inl ⟨text, rfl⟩)
  | fatal agreementId next message text answer d₁ _ ht hs hp =>
    obtain ⟨_, ⟨⟩, ha⟩ := hs
    have hrow := Negotiation.row_of_transition ht
    rw [Negotiation.next_fail hrow.isTerminal] at hp
    refine ha.concludes hd hn hdue hrow.routing.1 hp rfl rfl rfl ?_ ?_
    · rintro - ⟨text, h⟩
      cases h
    · exact iff_of_true (Negotiation.state_enter n .error d₁.now) (.inr ⟨text, rfl⟩)

theorem Sound.same (h : d.Sound m) (hs : d.Spares m "" d')
    (hfile : d'.file m "" = d.file m "") : d'.Sound m where
  tidy := hs.tidy h.tidy
  refusals := hs.refusals h.refusals
  named := (congrArg File.record hfile).trans h.named
  files id := by
    by_cases hid : id = ""
    · rw [hid, hfile]
      exact h.files ""
    · rw [hs.files id hid]
      exact h.files id

theorem Sound.spares (h : d.Sound m) (hs : d.Spares m key d') (hkey : key ≠ "")
    (hfile : (d'.file m key).Disciplined m) : d'.Sound m where
  tidy := hs.tidy h.tidy
  refusals := hs.refusals h.refusals
  named := (congrArg File.record (hs.files "" hkey.symm)).trans h.named
  files id := by
    by_cases hid : id = key
    · exact hid ▸ hfile
    · rw [hs.files id hid]
      exact h.files id

theorem Sound.mapQueue (h : d.Sound m) (f : CommandQueue → CommandQueue) :
    (d.mapQueue f).Sound m :=
  h.same (spares_mapQueue d "" f).1 (spares_mapQueue d "" f).2

theorem Sound.persists_error {e : StoreError} (h : d.Sound m)
    (hp : d.Persists next holder (.error e) d') : d'.Sound m :=
  h.same (hp.spares_error "").1 (hp.spares_error "").2

theorem Sound.persists_ok (h : d.Sound m) (hm : m.leaseHolder ≠ "") {v : Negotiation}
    {event : Event} {now : Instant} {message : Option RemoteMessage}
    (hv : d.store.find? key = some v) (hrole : v.role = some m.role)
    (he : ∀ cause, event ≠ .fail cause) (ht : v.transition event now "" = .applied next message)
    (hp : d.Persists next "" (.ok w) d') : d'.Sound m := by
  have hrow := Negotiation.row_of_transition ht
  have hc := hrow.continues
  obtain ⟨hmoved, hw⟩ := hp.moved hv ht
  have hrecord : (d.file m v.id).record = some v := m.own_eq_some.mpr ⟨hmoved.stored, hrole⟩
  have hnamed : v.id ≠ "" := by
    intro hid
    rw [hid, file, h.named] at hrecord
    cases hrecord
  obtain ⟨hspares, hfile⟩ := hp.spares_ok (hc.role.trans hrole)
  rw [hc.id] at hspares hfile
  refine h.spares hspares hnamed ?_
  rw [hfile, hc.stateCount]
  -- Attempts are left, and nobody but the loop makes an error of a version.
  refine (h.files v.id).replace hrecord hmoved.counted (by rw [hw]) ?_
  refine ((h.files v.id).current v hrecord hmoved.counted).2.replaced ?_ (absurd ·.symm hm)
  rw [hw]
  exact hrow.state_ne_error he

theorem Sound.served (h : d.Sound m) (hm : m.leaseHolder ≠ "") (hs : d.Served m.role d') :
    d'.Sound m := by
  cases hs with
  | idle => exact h
  | refused next e d' hp => exact h.persists_error hp
  | moved v next w event message d' hv hrole he ht hp =>
    refine (h.persists_ok hm (h.tidy.find?_of_mem hv) hrole ?_ ht hp).mapQueue _
    rintro cause rfl
    cases he
  | opened n w d' hrole hc hs =>
    obtain ⟨hspares, hfile⟩ := hs.spares_ok hrole
    have hopened := (Store.Opened.of_saved hs.saved hc).1
    have hid := hs.saved.id
    refine (h.spares hspares (hid ▸ hopened.id) ?_).mapQueue _
    rw [hfile, hc]
    exact (h.files n.id).start (by rw [file, ← hid, hopened.fresh]; rfl) _ _

theorem Sound.tried {c : QueuedCommand} (h : d.Sound m) (hm : m.leaseHolder ≠ "")
    (ht : d.Tried m c d') : d'.Sound m := by
  cases ht with
  | missing | foreign | rejected => exact h
  | dropped _ _ _ _ _ _ _ _ hp => exact h.persists_error hp
  | requeued _ _ _ _ _ _ _ _ hp => exact (h.persists_error hp).mapQueue _
  | written v next w message d' hv hrole ht hp =>
    refine (h.persists_ok hm hv hrole ?_ ht hp).mapQueue _
    cases c.command <;> simp [Command.event]

structure Pending (m : Manager) (ns : List Negotiation) (d : Desk) : Prop where
  sound : d.Sound m
  nodup : (ns.map Negotiation.id).Nodup
  holds : ∀ n ∈ ns, d.Holds m n

theorem Holds.spares (h : d.Holds m n) (hs : d.Spares m key d') (hne : n.id ≠ key) :
    d'.Holds m n := by
  have hrecord : (d'.file m n.id).record = some n :=
    (congrArg File.record (hs.files n.id hne)).trans h.record
  have hown := h.record
  refine ⟨(m.own_eq_some.mp hrecord).1, h.role, ?_⟩
  rw [hs.leases n.id hne (by rw [show m.own (d.store.find? n.id) = some n from hown]; simp)]
  exact h.lease

theorem Spares.isDue (h : d.Spares m key d') {id : String} (hne : id ≠ key)
    (hdue : d.work.retries.isDue id d.now = true) : d'.work.retries.isDue id d'.now = true := by
  rw [RetryLog.isDue_iff] at hdue ⊢
  intro e he
  have hentry : d'.work.retries.entries.get? id = d.work.retries.entries.get? id :=
    congrArg File.entry (h.files id hne)
  exact Int.le_trans (hdue e (hentry ▸ he)) h.now

theorem Pending.leave {before after : List Negotiation} (h : Pending m (before ++ n :: after) d)
    (hs : d.Spares m n.id d') (hfile : (d'.file m n.id).Disciplined m) :
    Pending m (before ++ after) d' ∧ ∀ v ∈ before ++ after, v.id ≠ n.id := by
  have hnodup := h.nodup
  rw [List.map_append, List.map_cons, List.nodup_middle, List.nodup_cons, ← List.map_append]
    at hnodup
  have hne (v : Negotiation) (hv : v ∈ before ++ after) : v.id ≠ n.id := by
    intro hid
    exact hnodup.1 (hid ▸ List.mem_map_of_mem hv)
  have hnamed := h.sound.named_of_holds (h.holds n (by simp))
  refine ⟨⟨h.sound.spares hs hnamed hfile, hnodup.2, fun v hv => ?_⟩, hne⟩
  refine (h.holds v ?_).spares hs (hne v hv)
  rcases List.mem_append.mp hv with hv | hv <;> simp [hv]

def Polling (m : Manager) (due rest : List Negotiation) (d : Desk) : Prop :=
  Pending m (due ++ rest) d ∧ ∀ n ∈ due, d.work.retries.isDue n.id d.now = true

theorem Sound.polling (h : d.Sound m) : Polling m [] [] d :=
  ⟨⟨h, List.nodup_nil, fun _ hn => by cases hn⟩, fun _ hn => by cases hn⟩

theorem polls_polling (m : Manager) : m.Polls (Sends m) (Polling m) where
  drop := by
    rintro due rest others d ⟨h, hdue⟩ hsub
    obtain ⟨kept, hperm, hkept⟩ := hsub
    have hmem (n : Negotiation) (hn : n ∈ others) : n ∈ due :=
      hkept.subset (hperm.mem_iff.mpr hn)
    have hnodup := h.nodup
    rw [List.map_append] at hnodup
    rw [Polling, List.append_nil]
    refine ⟨⟨h.sound, ?_, fun n hn => ?_⟩, fun n hn => hdue n (hmem n hn)⟩
    · exact (hperm.map _).nodup_iff.mp ((List.nodup_append.mp hnodup).1.sublist (hkept.map _))
    · exact h.holds n (List.mem_append_left _ (hmem n hn))
  lease := by
    rintro state d ns store ⟨h, -⟩ hlease
    have hleases := Store.leases_of_leaseNext hlease
    have hfind (id : String) : store.find? id = d.store.find? id := by
      simp only [Store.find?, hleases.records]
    refine ⟨⟨⟨?_, h.sound.refusals, ?_, fun id => ?_⟩, hleases.nodup h.sound.tidy, fun n hn => ?_⟩,
      fun _ hn => by cases hn⟩
    · simpa only [Store.Tidy, hleases.records] using h.sound.tidy
    · simpa only [hfind] using h.sound.named
    · have hfile := h.sound.files id
      simp only [file, hfind] at hfile ⊢
      exact hfile
    · refine ⟨?_, hleases.role n hn, hleases.held n hn⟩
      rw [hfind]
      exact h.sound.tidy.find?_of_mem (hleases.stored n hn)
  check := by
    rintro due n rest d ⟨h, hdue⟩ hn
    refine ⟨by simpa using h, fun v hv => ?_⟩
    rcases List.mem_append.mp hv with hv | hv
    · exact hdue v hv
    · exact List.mem_singleton.mp hv ▸ hn
  release := by
    rintro due n rest d ⟨h, hdue⟩
    obtain ⟨hs, hfile⟩ := spares_breakLease (m := m) d n.id m.leaseHolder
    obtain ⟨hpending, hne⟩ := h.leave hs (hfile ▸ h.sound.files n.id)
    exact ⟨hpending, fun v hv => hs.isDue (hne v (List.mem_append_left _ hv)) (hdue v hv)⟩
  turn := by
    rintro n due d d' ⟨h, hdue⟩ ht
    rw [List.append_nil] at h
    rw [Polling, List.append_nil]
    have hfirst : Pending m ([] ++ n :: due) d := h
    obtain ⟨hs, hfile⟩ := ht.disciplined h.sound (h.holds n (List.mem_cons_self ..))
      (hdue n (List.mem_cons_self ..))
    obtain ⟨hs', hfile'⟩ := spares_breakLease (m := m) d' n.id m.leaseHolder
    have hs := hs.trans hs'
    obtain ⟨hpending, hne⟩ := hfirst.leave hs (hfile' ▸ hfile)
    exact ⟨hpending, fun v hv => hs.isDue (hne v hv) (hdue v (List.mem_cons_of_mem _ hv))⟩

end Desk

namespace Journal

variable {n : Nat}

def dispatch (i : Fin n) (answer : Journal n → RemoteMessage → DispatchResult × Network n) :
    Transport (Journal n) := fun message j =>
  let (result, network) := answer j message
  let version := (j.site i).store.find? message.processId
  .ok result
    { j with network, deeds := j.deeds ++ [.sent message version j.network.now result] }

end Journal

namespace Manager

variable {n : Nat} (m : Manager) (ids : Nat → String) (i : Fin n)

/-- Runs of a manager that alone writes its records, from a store of any records. Between its rounds
the clock may go anywhere; while a message is answered it does not go back. -/
inductive Alone : Journal n → Prop where
  | start (j : Journal n) : j.deeds = [] → j.refusals = [] → (j.site i).store.Tidy →
      m.own ((j.site i).store.find? "") = none →
      (∀ id, ((j.site i).workload m.role).retries.entries.get? id = none) → Alone j
  | round {j : Journal n} (answer : Journal n → RemoteMessage → DispatchResult × Network n) :
      Alone j → (∀ j message, j.network.now ≤ (answer j message).2.now ∧
        (j.desk i m.role).Apart m
          (Journal.desk i m.role { j with network := (answer j message).2 })) →
      Alone ((m.runOnce (Journal.environment ids i) (Journal.dispatch i answer)).after j)
  | enqueue {j : Journal n} (c : Command) : Alone j →
      Alone ((m.enqueue (Journal.environment ids i) c).after j)
  | operate {j : Journal n} (x : Action (Journal n) (Except Refusal Negotiation)) : Alone j →
      m.Synchronous (Journal.environment ids i) x → Alone (x.after j)
  | elsewhere {j : Journal n} (j' : Journal n) : Alone j →
      (j.desk i m.role).Apart m (j'.desk i m.role) → j'.deeds = j.deeds →
      j'.refusals = j.refusals → Alone j'

variable {m : Manager} {σ : Type} {desk : σ → Desk} {env : Environment σ} {s : σ}

theorem drainCommands_tries {I : Desk → Prop} (h : env.Faithful m.role desk)
    (hqueue : ∀ d f, I d → I (d.mapQueue f)) (htried : ∀ c d d', I d → d.Tried m c d' → I d')
    (hs : I (desk s)) : Ends (m.drainCommands env) s fun _ t => I (desk t) := by
  refine (takeCommands_desk h).bind ?_ (fun _ _ hr => by cases hr.1)
  rintro batch t ⟨-, ht⟩
  refine (each_ends (fun _ t => I (desk t)) (fun _ _ _ h => h) ?_ ?_).andPure
  · intro c _ t ht
    exact (applyCommand_tried h c).mono fun _ _ hu => htried c _ _ ht hu.2
  · exact ht ▸ hqueue _ _ hs

theorem enqueue_queues {I : Desk → Prop} (h : env.Faithful m.role desk)
    (hqueue : ∀ d f, I d → I (d.mapQueue f)) (c : Command) (hs : I (desk s)) :
    Ends (m.enqueue env c) s fun _ t => I (desk t) := by
  refine (h.report _).bind_ends fun _ t ht => ?_
  refine (update_acts h _ t).mono fun _ u hu => ?_
  rw [hu.2, ht]
  exact hqueue _ (·.enqueue c) hs

theorem dispatch_sends {n : Nat} {i : Fin n}
    {answer : Journal n → RemoteMessage → DispatchResult × Network n}
    (hanswer : ∀ j message, j.network.now ≤ (answer j message).2.now ∧
      (j.desk i m.role).Apart m (Journal.desk i m.role { j with network := (answer j message).2 }))
    (message : RemoteMessage) (j : Journal n) :
    Ends (Journal.dispatch i answer message) j fun r t =>
      Desk.Sends m message (j.desk i m.role) r (t.desk i m.role) := by
  obtain ⟨hnow, hapart⟩ := hanswer j message
  exact ⟨_, rfl, ⟨hapart.tidy, hapart.own, hapart.leases, hapart.retries⟩, hnow, rfl, rfl⟩

theorem Alone.sound {ids : Nat → String} {i : Fin n} {j : Journal n} (hm : m.leaseHolder ≠ "")
    (h : m.Alone ids i j) : (j.desk i m.role).Sound m := by
  have hfaithful := Journal.faithful ids i m.role
  induction h with
  | start j hdeeds hrefusals htidy hnamed hentries =>
    refine ⟨htidy, hrefusals, hnamed, fun id => disciplined_of_empty (hentries id) fun c => ?_⟩
    simp [Desk.file, Journal.desk, hdeeds, sendings, successors]
  | @round j answer _ hanswer ih =>
    have hdrain := drainCommands_tries hfaithful (fun _ f hd => hd.mapQueue f)
      (fun _ _ _ hd ht => hd.tried hm ht) ih
    have hround := runOnce_polls hfaithful (dispatch_sends hanswer) (Desk.polls_polling m)
      (hdrain.mono fun _ _ ht => ht.polling)
    exact hround.after.1.sound
  | enqueue c _ ih =>
    exact (enqueue_queues hfaithful (fun _ f hd => hd.mapQueue f) c ih).after
  | operate x _ hx ih =>
    exact ((Synchronous.served hfaithful hx).mono fun _ _ hu => ih.served hm hu).after
  | @elsewhere j j' _ hapart hdeeds hrefusals ih =>
    have hfile (id : String) : (j'.desk i m.role).file m id = (j.desk i m.role).file m id := by
      simp only [Desk.file, hapart.own, hapart.retries]
      simp only [Journal.desk, hdeeds]
    refine ⟨hapart.tidy ih.tidy, hrefusals.trans ih.refusals, ?_, fun id => ?_⟩
    · exact (hapart.own "").trans ih.named
    rw [hfile]
    exact ih.files id

theorem leaseHolder_create (role : Role) (options : Options) (id : String) :
    (create role options id).leaseHolder ≠ "" := by
  intro h
  have hlength := congrArg String.length h
  simp only [create, String.length_append] at hlength
  have hdash : "-".length = 1 := rfl
  have hempty : "".length = 0 := rfl
  omega

/-- The messages sent from a version of a record are limited in number and spaced out. The loop
writes over a version that it has sent only when a message was accepted or its attempts are worn
out, in the latter case an error. The attempts counted are those made from the stored version. -/
theorem retries_disciplined {ids : Nat → String} {i : Fin n} {j : Journal n}
    (hm : m.leaseHolder ≠ "") (h : m.Alone ids i j) (id : String) (count : UInt64)
    (hcount : count ≠ 0) :
    Version m (sendings id count j.deeds) (successors id count j.deeds) ∧
    (∀ s ∈ sendings id count j.deeds, successors id count j.deeds = [] →
      (j.site i).store.find? id = some s.version) ∧
    ∀ v, (j.site i).store.find? id = some v → v.role = some m.role → v.stateCount = count →
      ((j.site i).workload m.role).retries.attempts id = (sendings id count j.deeds).length := by
  have hfile := (h.sound hm).files id
  refine ⟨hfile.versions count hcount, fun s hs hnone => ?_, ?_⟩
  · exact (m.own_eq_some.mp (hfile.stored hcount hs hnone)).1
  · rintro v hv hrole rfl
    have hcurrent := (hfile.current v (m.own_eq_some.mpr ⟨hv, hrole⟩) hcount).2
    exact (RetryLog.attempts_eq _ _).trans hcurrent.count

theorem retries_disciplined_of_outage : ∃ (m : Manager) (j : Journal 1),
    m.leaseHolder ≠ "" ∧ m.Alone (fun _ => "") 0 j ∧
      (sendings "n" 1 j.deeds).map Sending.now = [.ofMillis 0, .ofMillis 1000] ∧
      ((j.site 0).store.find? "n").map Negotiation.state = some .error ∧
      Version m (sendings "n" 1 j.deeds) (successors "n" 1 j.deeds) := by
  let m := Manager.create .consumer { maxRetries := 2 } "0"
  let n : Negotiation := { id := "n", role := some .consumer, stateCode := 100, stateCount := 1 }
  let answer (j : Journal 1) (_ : RemoteMessage) := (DispatchResult.transient "down", j.network)
  have hanswer (j : Journal 1) (message : RemoteMessage) :
      j.network.now ≤ (answer j message).2.now ∧ (j.desk 0 m.role).Apart m
        (Journal.desk 0 m.role { j with network := (answer j message).2 }) :=
    ⟨Int.le_refl _, id, fun _ => rfl, fun _ _ => rfl, rfl⟩
  have hm : m.leaseHolder ≠ "" := leaseHolder_create _ _ _
  have h : m.Alone (fun _ => "") 0
      { network := { sites := #v[{ store := { records := [n] } }] } } :=
    .start _ rfl rfl (List.nodup_singleton _) (by decide +kernel) fun _ => rfl
  have h := h.round answer hanswer
  have h := h.elsewhere { (_ : Journal 1) with network.now := .ofMillis 1000 }
    ⟨id, fun _ => rfl, fun _ _ => rfl, rfl⟩ rfl rfl
  have h := h.round answer hanswer
  exact ⟨m, _, hm, h, by decide +kernel, by decide +kernel,
    (retries_disciplined hm h "n" 1 (by decide)).1⟩

end Manager

end ContractNegotiation
