import ContractNegotiation.Proofs.Network.Answer
import ContractNegotiation.Proofs.Network.Exchange
import ContractNegotiation.Proofs.Page.Poll

namespace ContractNegotiation

open ContractNegotiation.Action Negotiation

theorem Negotiation.Row.state_ne_terminating {v next : Negotiation} {now : Instant}
    {agreementId : String} {event : Event} {message : Option RemoteMessage}
    (h : Row v now agreementId event next message) (he : ∀ reason, event ≠ .decline reason) :
    next.state ≠ .terminating := by
  cases h with
  | decline reason => exact absurd rfl (he reason)
  | _ => simp [Negotiation.state, enter, addOffer, State.ofCode_code]

namespace Site

variable {s t u : Site} {role r : Role} {id key : String} {now : Instant}

structure Eases (s t : Site) : Prop where
  leases : t.store.leases = s.store.leases
  waiting : ∀ r, (t.workload r).queue.waiting = (s.workload r).queue.waiting
  pending : ∀ r, (t.workload r).queue.pending = (s.workload r).queue.pending
  retries : ∀ r key, (t.workload r).retries.entries.get? key =
    (s.workload r).retries.entries.get? key ∨ (t.workload r).retries.entries.get? key = none

structure Attends (s : Site) (role : Role) (id : String) (t : Site) : Prop where
  leases : ∀ key, t.store.leases.get? key = s.store.leases.get? key ∨
    key = id ∧ t.store.leases.get? key = none
  waiting : ∀ r, (t.workload r).queue.waiting = (s.workload r).queue.waiting
  pending : ∀ r, (t.workload r).queue.pending = (s.workload r).queue.pending
  retries : ∀ r key, (t.workload r).retries.entries.get? key =
    (s.workload r).retries.entries.get? key ∨
      (t.workload r).retries.entries.get? key = none ∨ r = role ∧ key = id

theorem Eases.refl (s : Site) : s.Eases s :=
  ⟨rfl, fun _ => rfl, fun _ => rfl, fun _ _ => .inl rfl⟩

theorem Eases.trans (h : s.Eases t) (h' : t.Eases u) : s.Eases u where
  leases := h'.leases.trans h.leases
  waiting r := (h'.waiting r).trans (h.waiting r)
  pending r := (h'.pending r).trans (h.pending r)
  retries r key := by
    rcases h'.retries r key with he | hn
    · rw [he]
      exact h.retries r key
    · exact .inr hn

theorem Eases.attends (h : s.Eases t) : s.Attends role id t where
  leases key := by
    rw [h.leases]
    exact .inl rfl
  waiting := h.waiting
  pending := h.pending
  retries r key := (h.retries r key).imp_right .inl

theorem Attends.trans (h : s.Attends role id t) (h' : t.Attends role id u) :
    s.Attends role id u where
  leases key := by
    rcases h'.leases key with he | hn
    · rw [he]
      exact h.leases key
    · exact .inr hn
  waiting r := (h'.waiting r).trans (h.waiting r)
  pending r := (h'.pending r).trans (h.pending r)
  retries r key := by
    rcases h'.retries r key with he | hn
    · rw [he]
      exact h.retries r key
    · exact .inr hn

theorem eases_store {store : Store} (h : store.leases = s.store.leases) :
    s.Eases { s with store } := by
  refine ⟨h, fun r => ?_, fun r => ?_, fun r _ => .inl ?_⟩
  all_goals rw [workload_store]

theorem eases_update {f : Workload → Workload} (hw : ∀ w, (f w).queue.waiting = w.queue.waiting)
    (hp : ∀ w, (f w).queue.pending = w.queue.pending)
    (hr : ∀ w key, (f w).retries.entries.get? key = w.retries.entries.get? key ∨
      (f w).retries.entries.get? key = none) : s.Eases (s.update role f) := by
  refine ⟨by rw [store_update], fun r => ?_, fun r => ?_, fun r key => ?_⟩
  all_goals
    rw [workload_update]
    split
  · rename_i he
    rw [he, hw]
  · rfl
  · rename_i he
    rw [he, hp]
  · rfl
  · rename_i he
    rw [he]
    exact hr _ key
  · exact .inl rfl

theorem eases_wake (s : Site) (role : Role) : s.Eases (s.wake role) :=
  eases_update (fun _ => rfl) (fun _ => rfl) fun _ _ => .inl rfl

theorem eases_clear (s : Site) (role : Role) (id : String) :
    s.Eases (s.update role (·.clearRetries id)) := by
  refine eases_update (fun _ => rfl) (fun _ => rfl) fun w key => ?_
  simp only [Workload.clearRetries, RetryLog.clear, Table.get?_erase]
  split
  · exact .inr rfl
  · exact .inl rfl

theorem eases_record {store : Store} (h : store.leases = s.store.leases) (role : Role)
    (id : String) : s.Eases (s.record role store id) :=
  (eases_store h).trans (eases_clear _ role id)

theorem Wrote.eases {w : Negotiation} (h : s.Wrote now w t) : s.Eases t := by
  cases h with
  | nothing => exact .refl s
  | inserted =>
    apply Eases.trans (eases_store _) (eases_wake _ _)
    rfl
  | replaced =>
    apply Eases.trans (eases_record _ _ _) (eases_wake _ _)
    rfl

theorem Answers.eases {outcome : Except Refusal Negotiation} (h : s.Answers now outcome t) :
    s.Eases t := by
  cases h with
  | refused => exact .refl s
  | granted w _ _ hw => exact hw.eases

theorem attends_release (holder : String) : s.Attends role id (s.release now holder id) := by
  rcases s.release_cases now holder id with he | he
  · rw [he]
    exact (Eases.refl s).attends
  · rw [he]
    refine ⟨fun key => ?_, fun r => ?_, fun r => ?_, fun r _ => .inl ?_⟩
    · simp only [Table.get?_erase]
      split
      · rename_i hkey
        exact .inr ⟨hkey, rfl⟩
      · exact .inl rfl
    all_goals rw [workload_store]

theorem attends_recordFailure (s : Site) (role : Role) (id : String) (b : Backoff)
    (now : Instant) : s.Attends role id
      (s.update role fun w => { w with retries := (w.retries.recordFailure b id now).2 }) := by
  refine ⟨fun _ => .inl ?_, fun x => ?_, fun x => ?_, fun x key => ?_⟩
  · rw [store_update]
  all_goals
    rw [workload_update]
    split
  · rename_i he
    rw [he]
  · rfl
  · rename_i he
    rw [he]
  · rfl
  · rename_i he
    rw [he]
    by_cases hk : key = id
    · exact .inr (.inr ⟨rfl, hk⟩)
    · left
      simp only [RetryLog.recordFailure]
      split
      · rw [Table.get?_erase, if_neg hk]
      · rw [Table.get?_insert, if_neg hk]
  · exact .inl rfl

end Site

namespace Network

variable {n : Nat} {roster : Roster n} {i j k : Fin n} {net net' net'' : Network n} {role : Role}
  {id : String} {t : Site} {drawn : Nat}

/-- What the manager of a role at `i` may change while it attends to the record `id`: the record
itself, other connectors' records that refer to it, and what `Site.Attends` says. -/
structure Touches (i : Fin n) (role : Role) (id : String) (net net' : Network n) : Prop where
  issued : net.issued ≤ net'.issued
  addresses : net'.addresses = net.addresses
  now : net'.now = net.now
  tidy : (∀ k, (net.site k).store.Tidy) → ∀ k, (net'.site k).store.Tidy
  spared : ∀ k x, x.id ≠ id → x.correlationId ≠ id → net.finder k x.id = some x →
    net'.finder k x.id = some x
  terminating : ∀ k x, x.state = .terminating → net'.finder k x.id = some x →
    net.finder k x.id = some x
  own : (net.site i).Attends role id (net'.site i)
  others : ∀ k, k ≠ i → (net.site k).Eases (net'.site k)

theorem Touches.refl (i : Fin n) (role : Role) (id : String) (net : Network n) :
    Touches i role id net net :=
  ⟨Nat.le_refl _, rfl, rfl, fun h => h, fun _ _ _ _ h => h, fun _ _ _ h => h,
    (Site.Eases.refl _).attends, fun _ _ => .refl _⟩

theorem Touches.trans (h : Touches i role id net net') (h' : Touches i role id net' net'') :
    Touches i role id net net'' where
  issued := Nat.le_trans h.issued h'.issued
  addresses := h'.addresses.trans h.addresses
  now := h'.now.trans h.now
  tidy ht := h'.tidy (h.tidy ht)
  spared k x hid hc hx := h'.spared k x hid hc (h.spared k x hid hc hx)
  terminating k x hs hx := h.terminating k x hs (h'.terminating k x hs hx)
  own := h.own.trans h'.own
  others k hk := (h.others k hk).trans (h'.others k hk)

theorem now_of_confined (hc : (focus j).Confined net net') : net'.now = net.now :=
  congrArg (·.2.2) hc.outside

section Writing

variable (hc : (focus j).Confined net net')
  (hown : j = i → (net.site i).Attends role id (net'.site i))
  (hother : j ≠ i → (net.site j).Eases (net'.site j))
include hc hown hother

theorem touches_of_confined (htidy : (net.site j).store.Tidy → (net'.site j).store.Tidy)
    (hspared : ∀ x, x.id ≠ id → x.correlationId ≠ id → net.finder j x.id = some x →
      net'.finder j x.id = some x)
    (hterm : ∀ x, x.state = .terminating → net'.finder j x.id = some x →
      net.finder j x.id = some x) : Touches i role id net net' where
  issued := hc.issued
  addresses := addresses_of_confined hc
  now := now_of_confined hc
  tidy ht k := by
    by_cases hk : k = j
    · exact hk ▸ htidy (ht j)
    · exact site_of_confined hc hk ▸ ht k
  spared k x hid hcor hx := by
    by_cases hk : k = j
    · subst hk
      exact hspared x hid hcor hx
    · rwa [finder, site_of_confined hc hk]
  terminating k x hs hx := by
    by_cases hk : k = j
    · subst hk
      exact hterm x hs hx
    · rwa [finder, site_of_confined hc hk] at hx
  own := by
    by_cases hi : j = i
    · exact hown hi
    · rw [site_of_confined hc fun h => hi h.symm]
      exact (Site.Eases.refl _).attends
  others k hk := by
    by_cases hkj : k = j
    · subst hkj
      exact hother hk
    · rw [site_of_confined hc hkj]
      exact .refl _

theorem touches_of_records
    (hrec : (net'.site j).store.records = (net.site j).store.records) :
    Touches i role id net net' := by
  have hfind := finder_of_records hc hrec
  apply touches_of_confined hc hown hother
  · intro ht
    simpa only [Store.Tidy, hrec] using ht
  · intro x _ _ hx
    rwa [hfind]
  · intro x _ hx
    rwa [hfind] at hx

theorem touches_of_write {w : Negotiation}
    (htidy : (net.site j).store.Tidy → (net'.site j).store.Tidy)
    (hfind : ∀ key, (net'.site j).store.find? key =
      if key = w.id then some w else (net.site j).store.find? key)
    (hold : ∀ x, net.finder j x.id = some x → x.id = w.id → x.id = id ∨ x.correlationId = id)
    (hstate : w.state ≠ .terminating) : Touches i role id net net' := by
  apply touches_of_confined hc hown hother htidy
  · intro x hid hcor hx
    have hne : x.id ≠ w.id := fun h => (hold x hx h).elim hid hcor
    rw [finder, hfind, if_neg hne]
    exact hx
  · intro x hx hf
    rw [finder, hfind] at hf
    split at hf
    · obtain rfl := Option.some.inj hf
      exact absurd hx hstate
    · exact hf

end Writing

theorem touches_of_alters (ha : Alters i t net net') (hs : (net.site i).Attends role id t)
    (hrec : t.store.records = (net.site i).store.records) : Touches i role id net net' := by
  apply touches_of_records ha.toConfined (fun _ => ha.site ▸ hs) (fun h => absurd rfl h)
  rw [ha.site, hrec]

theorem touches_of_saved {next w : Negotiation} (ha : Alters i t net net')
    (hs : (net.site i).Attends role id t) (hw : (net.site i).store.Saved next w t.store)
    (hid : w.id = id) (hstate : w.state ≠ .terminating) : Touches i role id net net' := by
  apply touches_of_write ha.toConfined (fun _ => ha.site ▸ hs) (fun h => absurd rfl h)
  · rw [ha.site]
    exact hw.tidy
  · rw [ha.site]
    exact hw.find?
  · intro x _ hx
    exact .inl (hx.trans hid)
  · exact hstate

section Receiving

variable (hw : roster.Wired drawn) (htidy : ∀ k, (net.site k).store.Tidy)
include hw htidy

theorem receive_touches (m : RemoteMessage) (token : ClaimToken) :
    Yields (Service.receive (roster.connector j) (environment roster.ids j) m token) net
      fun _ net' => Touches i role m.processId net net' := by
  have hends := Service.receive_ends (environment_lawful roster.ids j) (roster.connector j)
    (hw.typed j) (htidy j) m token
  apply ((receive_replies (roster.connector j) (htidy j) m token).andEnds hends).mono
  rintro r net' ⟨hr, hreception⟩
  cases r with
  | none =>
    obtain rfl : net' = net := hr
    exact .refl ..
  | some r =>
    have hreplies : Replies j net r net' := hr
    obtain ⟨h, -⟩ | ⟨r', -, heffect⟩ := hreception
    · cases h
    · have heases := hreplies.site.eases
      have hown (hji : j = i) : (net.site i).Attends role m.processId (net'.site i) := by
        subst hji
        exact heases.attends
      cases heffect with
      | refused hk | kept _ hk =>
        apply touches_of_records hk.toConfined hown fun _ => heases
        exact congrArg Store.records hk.store
      | moved v w event agreementId hc hv _ hm =>
        apply touches_of_write hc hown (fun _ => heases) hm.tidy hm.find?
        · intro x hx hid
          right
          rw [hid, hm.follows.id] at hx
          obtain rfl := Option.some.inj (hx.symm.trans hm.stored)
          exact (Store.correlationId_of_findByCorrelation? hv.1).2.1
        · obtain ⟨now, next, message, ht, rfl⟩ := hm.follows
          obtain ⟨-, role, -, hmeans⟩ := hv
          rw [state_successor]
          apply (row_of_transition ht).state_ne_terminating
          rintro reason rfl
          cases hmeans
      | opened w k hc _ _ _ hwel ho =>
        apply touches_of_write hc hown (fun _ => heases) ho.tidy ho.find?
        · intro x hx hid
          rw [finder, hid] at hx
          cases ho.fresh.symm.trans hx
        · obtain ⟨request, offer, -, -, -, -, hstarts⟩ := hwel
          rw [state_eq hstarts.stateCode]
          decide

theorem send_touches (m : RemoteMessage) : Yields (send roster i m) net fun _ net' =>
    Touches i role m.processId net net' := by
  cases hget : net.addresses.get? m.destination with
  | none =>
    apply (send_unreachable hget).mono
    rintro answer _ ⟨-, rfl⟩
    exact .refl ..
  | some j =>
    apply (send_yields hget (receive_touches hw htidy m _)).mono
    rintro answer net' ⟨r, -, ht⟩
    exact ht

end Receiving

section Turns

variable {ids : Nat → String} (m : Manager)

theorem release_yields (id : String) : Yields (m.release (environment ids i) id) net fun _ net' =>
    Alters i ((net.site i).release net.now m.leaseHolder id) net net' :=
  (situated ids i net).release_yields m (p := net.page i) (.refl net) id

theorem conclude_yields (v next : Negotiation) :
    Yields (m.conclude (environment ids i) v next) net fun _ net' =>
      Alters i ((net.site i).conclude m.role net.now m.leaseHolder next) net net' := by
  have h := (situated ids i net).conclude_yields m (p := net.page i) (.refl net) v next
  rwa [Page.site_conclude] at h

theorem concludeFailed_yields {v : Negotiation} (cause : String)
    (hterm : v.state.isTerminal = false) :
    Yields (m.concludeFailed (environment ids i) v cause) net fun _ net' =>
      Alters i ((net.site i).conclude m.role net.now m.leaseHolder
        { v.enter .error net.now with errorDetail := cause }) net net' := by
  apply ((situated ids i net).concludeFailed_yields m (p := net.page i) (.refl net) hterm
    cause).mono
  rintro _ net' ⟨_, -, ha⟩
  rwa [Page.site_conclude] at ha

theorem recordFailure_yields (id : String) :
    Yields (m.recordFailure (environment ids i) id) net fun r net' =>
      r.1 = (((net.site i).workload m.role).retries.recordFailure m.options.backoff id net.now).1 ∧
        Alters i ((net.site i).update m.role fun w =>
          { w with retries := (w.retries.recordFailure m.options.backoff id net.now).2 })
            net net' :=
  (situated ids i net).recordFailure_yields m (p := net.page i) (.refl net) id

theorem clear_yields (id : String) :
    Yields (m.modify (environment ids i) (·.clearRetries id)) net fun _ net' =>
      Alters i ((net.site i).update m.role (·.clearRetries id)) net net' := update_yields m.role _

theorem clear_touches : Yields (m.modify (environment ids i) (·.clearRetries id)) net
    fun _ net' => Touches i role id net net' := by
  apply (clear_yields m id).mono
  intro _ net' ha
  apply touches_of_alters ha (Site.eases_clear _ _ _).attends
  rw [Site.store_update]

theorem recordFailure_touches : Yields (m.recordFailure (environment ids i) id) net
    fun _ net' => Touches i m.role id net net' := by
  apply (recordFailure_yields m id).mono
  rintro _ net' ⟨-, ha⟩
  apply touches_of_alters ha (Site.attends_recordFailure _ _ _ _ _)
  rw [Site.store_update]

theorem report_touches (notice : Notice) : Yields ((environment ids i).report notice) net
    fun _ net' => Touches i role id net net' := by
  apply (report_yields notice).mono
  intro _ net' ha
  exact touches_of_alters ha (Site.Eases.refl _).attends rfl

theorem conclude_touches (v next : Negotiation) (hid : next.id = id)
    (hstate : next.state ≠ .terminating) :
    Yields (m.conclude (environment ids i) v next) net fun _ net' =>
      Touches i role id net net' := by
  apply (conclude_yields m v next).mono
  intro _ net' ha
  unfold Site.conclude at ha
  split at ha
  · rename_i w store hsave
    have hsaved := Store.saved_of_save hsave
    have hkept : (net.site i).store.Saved next w ((net.site i).record m.role store w.id).store := by
      rwa [Site.store_record]
    apply touches_of_saved ha (Site.eases_record hsaved.leases _ _).attends hkept
    · exact hsaved.id.trans hid
    · have hs : w.state = next.state := by cases hsaved <;> rfl
      rwa [hs]
  · exact touches_of_alters ha (Site.Eases.refl _).attends rfl

theorem concludeFailed_touches (v : Negotiation) (cause : String)
    (hterm : v.state.isTerminal = false) :
    Yields (m.concludeFailed (environment ids i) v cause) net fun _ net' =>
      Touches i role v.id net net' := by
  apply (transition_yields v (.fail cause)).bind
  rintro outcome t ⟨rfl, ht⟩
  rw [next_fail hterm]
  have hfirst : Touches i role v.id net t :=
    touches_of_alters ht (Site.Eases.refl _).attends rfl
  apply (conclude_touches m v _ rfl _).mono
  · intro _ u hu
    exact hfirst.trans hu
  · simp [Negotiation.state, enter, State.ofCode_code]

structure Settles (i : Fin n) (m : Manager) (id : String) (net : Network n) (settled : Bool)
    (net' : Network n) : Prop extends Touches i m.role id net net' where
  free : settled = true → (∀ lease, (net.site i).store.leases.get? id = some lease →
    lease.holder = m.leaseHolder) → (net'.site i).store.leases.get? id = none

variable {m}

theorem Settles.after {settled : Bool} (h : Settles i m id net' settled net'')
    (ht : Touches i m.role id net net') : Settles i m id net settled net'' := by
  refine ⟨ht.trans h.toTouches, fun hs hl => h.free hs fun lease hlease => ?_⟩
  rcases ht.own.leases id with he | ⟨-, hn⟩
  · exact hl lease (he ▸ hlease)
  · rw [hn] at hlease
    cases hlease

theorem Touches.unsettled (h : Touches i m.role id net net') : Settles i m id net false net' :=
  ⟨h, fun hs => by cases hs⟩

theorem release_settles (id : String) : Yields (m.release (environment ids i) id) net
    fun _ net' => Settles i m id net true net' := by
  apply (release_yields m id).mono
  intro _ net' ha
  refine ⟨touches_of_alters ha (Site.attends_release _) (Site.records_release _), fun _ hl => ?_⟩
  rw [ha.site]
  exact (Site.leases_release hl id).trans (if_pos rfl)

variable {v next : Negotiation} {message : RemoteMessage} (hw : roster.Wired drawn)
  (htidy : ∀ k, (net.site k).store.Tidy)
include hw htidy

theorem deliver_settles (hm : message.processId = v.id) (hid : next.id = v.id)
    (hstate : next.state ≠ .terminating) (hterm : v.state.isTerminal = false) :
    Yields (m.deliver (environment roster.ids i) (send roster i) v next message) net
      (Settles i m v.id net) := by
  have hsend : Yields (send roster i message) net fun _ net' =>
      Touches i m.role message.processId net net' := send_touches hw htidy message
  rw [hm] at hsend
  apply hsend.bind
  rintro (peer | text | text) t ht
  · apply (clear_touches m).bind
    intro _ u hu
    apply (conclude_touches m v (next.correlate peer) _ _).bind
    · intro _ u' hu'
      exact yields_pure.mpr (ht.trans (hu.trans hu')).unsettled
    · rwa [correlate_eq]
    · rw [correlate_eq]
      exact hstate
  · apply (recordFailure_touches m).bind
    rintro ⟨exhausted, attempts⟩ u hu
    dsimp only
    split
    · apply (report_touches _).bind
      intro _ u' hu'
      apply (concludeFailed_touches m v _ hterm).bind
      intro _ t' ht'
      exact yields_pure.mpr (ht.trans (hu.trans (hu'.trans ht'))).unsettled
    · apply (report_touches _).bind
      intro _ u' hu'
      apply (release_settles v.id).bind
      intro _ t' ht'
      exact yields_pure.mpr (ht'.after (ht.trans (hu.trans hu')))
  · apply (clear_touches m).bind
    intro _ u hu
    apply (report_touches _).bind
    intro _ u' hu'
    apply (concludeFailed_touches m v _ hterm).bind
    intro _ t' ht'
    exact yields_pure.mpr (ht.trans (hu.trans (hu'.trans ht'))).unsettled

theorem advance_settles : Yields (m.advance (environment roster.ids i) (send roster i) v) net
    (Settles i m v.id net) := by
  have passes {t : Network n} (notice : Notice) (ht : Touches i m.role v.id net t) :
      Yields ((environment roster.ids i).report notice >>= fun _ =>
        m.release (environment roster.ids i) v.id >>= fun _ => pure true) t
          (Settles i m v.id net) := by
    apply (report_touches notice).bind
    intro _ u hu
    apply (release_settles v.id).bind
    intro _ u' hu'
    exact yields_pure.mpr (hu'.after (ht.trans hu))
  apply (transition_yields v m.turn).bind
  rintro outcome t ⟨ho, ha⟩
  have ht : Touches i m.role v.id net t := touches_of_alters ha (Site.Eases.refl _).attends rfl
  cases outcome with
  | rejected => exact passes _ ht
  | unchanged => exact passes _ ht
  | applied next message =>
    have hrow := row_of_transition ho.symm
    have hid := hrow.continues.id
    have hstate : next.state ≠ .terminating := hrow.state_ne_terminating fun reason h => by cases h
    cases message with
    | some message =>
      apply (deliver_settles hw (ht.tidy htidy) hrow.routing.1 hid hstate hrow.isTerminal).mono
      intro settled u hu
      exact hu.after ht
    | none =>
      apply (conclude_touches m v next hid hstate).bind
      intro _ u hu
      exact yields_pure.mpr (ht.trans hu).unsettled

theorem processLeased_settles :
    Yields (m.processLeased (environment roster.ids i) (send roster i) v) net
      fun _ net' => Settles i m v.id net true net' := by
  apply (advance_settles hw htidy).attempt.bind
  rintro _ t ⟨settled, rfl, ht⟩
  cases settled with
  | true => exact yields_pure.mpr ht
  | false =>
    apply (release_settles v.id).mono
    intro _ u hu
    exact hu.after ht.toTouches

end Turns

end Network

end ContractNegotiation
