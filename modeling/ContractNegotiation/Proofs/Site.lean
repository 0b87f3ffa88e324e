import ContractNegotiation.Network
import ContractNegotiation.Proofs.Retry
import ContractNegotiation.Proofs.Store
import ContractNegotiation.Proofs.Transition

namespace ContractNegotiation

open Negotiation

namespace Store.Grants

variable {s : Store} {v next : Negotiation} {holder : String}

theorem save (h : s.Grants v holder) (hc : v.Continues next) (peer : String)
    (now : Instant) : s.save (next.correlate peer) holder now =
      .ok (v.successor next peer, s.replace (v.successor next peer)) := by
  have hid : (next.correlate peer).id = v.id := by rw [correlate_eq, hc.id]
  have hcount : (next.correlate peer).stateCount = v.stateCount := by
    rw [correlate_eq, hc.stateCount]
  have hsave : s.save (next.correlate peer) holder now = .ok _ :=
    Store.save_next (hid ▸ h.id) (hcount ▸ h.counted) (hid ▸ h.stored) hcount.symm (hid ▸ h.lease)
  rwa [hcount] at hsave

theorem replace {w : Negotiation} (h : s.Grants v holder) (hne : v.id ≠ w.id) :
    (s.replace w).Grants v holder := by
  refine ⟨h.id, h.counted, ?_, h.lease⟩
  rw [Store.find?_replace, if_neg hne]
  exact h.stored

end Store.Grants

theorem Negotiation.Continues.id_successor {v next : Negotiation} (hc : v.Continues next)
    (peer : String) : (v.successor next peer).id = v.id := by
  rw [successor_eq]
  exact hc.id

namespace Site

def update (s : Site) (role : Role) (f : Workload → Workload) : Site :=
  s.setWorkload role (f (s.workload role))

def wake (s : Site) (role : Role) : Site := s.update role (·.mapQueue .wake)

def record (s : Site) (role : Role) (store : Store) (id : String) : Site :=
  { s with store }.update role (·.clearRetries id)

def release (s : Site) (now : Instant) (holder id : String) : Site :=
  match s.store.breakLease id holder now with
  | .ok store => { s with store }
  | .error _ => s

def conclude (s : Site) (role : Role) (now : Instant) (holder : String) (next : Negotiation) :
    Site :=
  match s.store.save next holder now with
  | .ok (w, store) => s.record role store w.id
  | .error _ => s

/-- One try of a command: `asked` is when it is judged, and `saved` when the store is written. -/
def obey (s : Site) (m : Manager) (c : QueuedCommand) (asked saved : Instant) : Site :=
  match s.store.find? c.command.target with
  | none => s
  | some v =>
    if v.role ≠ some m.role then s
    else
      match v.transition c.command.event asked "" with
      | .rejected | .unchanged => s
      | .applied next _ =>
        match s.store.save next "" saved with
        | .ok (w, store) => (s.record m.role store w.id).wake m.role
        | .error error =>
          if error.isLostRace ∧ c.attempts + 1 < m.options.commandMaxAttempts then
            s.update m.role (·.mapQueue (·.requeue c))
          else s

def tries (s : Site) (role : Role) (id : String) : Option RetryEntry :=
  (s.workload role).retries.entries.get? id

def isFree (s : Site) (role : Role) (now : Instant) (v : Negotiation) : Bool :=
  !(s.workload role).queue.hasPending v.id && (s.workload role).retries.isDue v.id now

variable {s t : Site} {role : Role} {m : Manager} {c : QueuedCommand} {now asked saved : Instant}
  {id holder : String} {v next : Negotiation}

theorem workload_setWorkload (s : Site) (role : Role) (w : Workload) :
    (s.setWorkload role w).workload role = w := by
  cases role <;> rfl

theorem store_setWorkload (s : Site) (role : Role) (w : Workload) :
    (s.setWorkload role w).store = s.store := by
  cases role <;> rfl

theorem workload_store (s : Site) (store : Store) (role : Role) :
    ({ s with store } : Site).workload role = s.workload role := by
  cases role <;> rfl

@[simp] theorem store_update (f : Workload → Workload) : (s.update role f).store = s.store := by
  cases role <;> rfl

@[simp] theorem store_wake : (s.wake role).store = s.store := store_update _

@[simp] theorem store_record (store : Store) (id : String) :
    (s.record role store id).store = store := store_update _

theorem workload_update (s : Site) (role : Role) (f : Workload → Workload) (r : Role) :
    (s.update role f).workload r = if r = role then f (s.workload role) else s.workload r := by
  cases role <;> cases r <;> rfl

theorem tries_update (s : Site) (role : Role) (f : Workload → Workload) (r : Role) (id : String) :
    (s.update role f).tries r id = if r = role then (f (s.workload role)).retries.entries.get? id
      else s.tries r id := by
  unfold tries
  rw [workload_update]
  split <;> rfl

theorem isFree_eq (s : Site) (role : Role) (now : Instant) (v : Negotiation) :
    s.isFree role now v = !((s.workload role).queue.hasPending v.id ||
      !(s.workload role).retries.isDue v.id now) := by
  rw [Bool.not_or, Bool.not_not]
  rfl

theorem release_cases (s : Site) (now : Instant) (holder id : String) :
    s.release now holder id = s ∨ s.release now holder id =
      { s with store := { s.store with leases := s.store.leases.erase id } } := by
  unfold release
  split
  · rename_i store h
    rcases Store.breakLease_cases h with rfl | rfl
    · exact .inl rfl
    · exact .inr rfl
  · exact .inl rfl

theorem records_release (holder : String) :
    (s.release now holder id).store.records = s.store.records := by
  rcases s.release_cases now holder id with he | he <;> rw [he]

theorem workload_release (holder id : String) (r : Role) :
    (s.release now holder id).workload r = s.workload r := by
  rcases s.release_cases now holder id with he | he <;> rw [he]
  exact workload_store ..

theorem leases_release (h : ∀ lease, s.store.leases.get? id = some lease → lease.holder = holder)
    (key : String) : (s.release now holder id).store.leases.get? key =
      if key = id then none else s.store.leases.get? key := by
  unfold release Store.breakLease
  cases hl : s.store.leases.get? id with
  | none =>
    by_cases hkey : key = id
    · rw [if_pos hkey, hkey]
      exact hl
    · rw [if_neg hkey]
  | some lease =>
    have hno : ¬ (lease.holder ≠ holder ∧ now < lease.expiresAt) := fun hc => hc.1 (h lease hl)
    simp only [if_neg hno, Table.get?_erase]

theorem conclude_eq (hg : s.store.Grants v holder) (hc : v.Continues next) (peer : String) :
    s.conclude role now holder (next.correlate peer) =
      s.record role (s.store.replace (v.successor next peer)) (v.successor next peer).id := by
  simp only [conclude, hg.save hc]

inductive Obeys (s : Site) (m : Manager) (c : QueuedCommand) (asked : Instant) : Site → Prop where
  | idle : Obeys s m c asked s
  | written (v next w : Negotiation) (message : Option RemoteMessage) (store : Store) :
      s.store.find? c.command.target = some v → v.role = some m.role →
      v.transition c.command.event asked "" = .applied next message →
      s.store.Saved next w store → Obeys s m c asked ((s.record m.role store w.id).wake m.role)
  | requeued (v next : Negotiation) (message : Option RemoteMessage) :
      s.store.find? c.command.target = some v → v.role = some m.role →
      v.transition c.command.event asked "" = .applied next message →
      Obeys s m c asked (s.update m.role (·.mapQueue (·.requeue c)))

theorem obeys_obey (s : Site) (m : Manager) (c : QueuedCommand) (asked saved : Instant) :
    s.Obeys m c asked (s.obey m c asked saved) := by
  unfold obey
  split
  · exact .idle
  · rename_i v hv
    split
    · exact .idle
    · rename_i hrole
      split
      · exact .idle
      · exact .idle
      · rename_i next message ht
        have hrole := not_not.mp hrole
        split
        · rename_i w store hsave
          exact .written v next w message store hv hrole ht (Store.saved_of_save hsave)
        · split
          · exact .requeued v next message hv hrole ht
          · exact .idle

theorem Obeys.tries (h : s.Obeys m c asked t) (role : Role) {id : String}
    (hid : id ≠ c.command.target) : t.tries role id = s.tries role id := by
  have queued (u : Site) (f : CommandQueue → CommandQueue) :
      (u.update m.role (·.mapQueue f)).tries role id = u.tries role id := by
    rw [tries_update]
    split
    · rename_i hrole
      rw [hrole]
      rfl
    · rfl
  cases h with
  | idle => rfl
  | written v next w message store hv _ ht hsaved =>
    have hw : w.id = c.command.target :=
      (hsaved.id.trans (row_of_transition ht).continues.id).trans (Store.id_of_find? hv)
    rw [wake, queued, record, tries_update]
    split
    · rename_i hrole
      rw [hw, Workload.clearRetries, RetryLog.get?_clear, if_neg hid, workload_store, hrole]
      rfl
    · rw [Site.tries, workload_store]
      rfl
  | requeued => exact queued s _

theorem Obeys.find? (h : s.Obeys m c asked t) {id : String} {w : Negotiation}
    (hw : s.store.find? id = some w) (hstop : c.command.target = id → w.state.isTerminal = true) :
    t.store.find? id = some w := by
  cases h with
  | idle => exact hw
  | written v next x message store hv _ ht hsaved =>
    have hrow := row_of_transition ht
    have hx : x.id = c.command.target :=
      (hsaved.id.trans hrow.continues.id).trans (Store.id_of_find? hv)
    rw [store_wake, store_record, hsaved.find?, if_neg, hw]
    rintro rfl
    rw [← hx, hw] at hv
    cases hv
    have hterminal := hstop hx.symm
    rw [hrow.isTerminal] at hterminal
    cases hterminal
  | requeued =>
    rw [store_update]
    exact hw

end Site

end ContractNegotiation
