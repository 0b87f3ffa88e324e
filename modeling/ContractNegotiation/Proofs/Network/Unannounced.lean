import ContractNegotiation.Proofs.Network.Audit
import ContractNegotiation.Proofs.Network.Polling

namespace ContractNegotiation

open ContractNegotiation.Action Negotiation Relation

def Loopback.unknown (id : String) : String := "NOT_FOUND: no negotiation correlated with " ++ id

namespace Negotiation

variable {v w next : Negotiation} {event : Event} {now : Instant} {agreementId peer : String}

theorem Row.state_ne_requesting {message : Option RemoteMessage}
    (h : Row v now agreementId event next message) : next.state ≠ .requesting := by
  cases h <;> simp [state, enter, addOffer, State.ofCode_code]

structure Unannounced (v w : Negotiation) : Prop extends w.Unanswered where
  id : w.id = v.id
  role : w.role = some .consumer
  address : w.counterPartyAddress = v.counterPartyAddress
  unended : w.state ≠ .terminated
  failed : w.state = .error →
    w.errorDetail = "dispatch retries exhausted: " ++ Loopback.unknown v.id

theorem Unannounced.successor (h : v.Unannounced w) (hrow : Row w now agreementId event next none)
    (hown : event.IsOwn) (hunended : next.state ≠ .terminated)
    (hfailed : next.state = .error →
      next.errorDetail = "dispatch retries exhausted: " ++ Loopback.unknown v.id) :
    v.Unannounced (w.successor next "") := by
  have hc := hrow.continues
  refine ⟨h.toUnanswered.moves h.role hrow hown, ?_, ?_, ?_, ?_, ?_⟩
  · rw [successor_eq]
    exact hc.id.trans h.id
  · rw [successor_eq]
    exact hc.role.trans h.role
  · rw [successor_eq]
    exact hc.counterPartyAddress.trans h.address
  · rwa [state_successor]
  · rw [state_successor, successor_eq]
    exact hfailed

theorem Unannounced.moved (h : v.Unannounced w) {message : Option RemoteMessage}
    (hrow : Row w now agreementId event next message)
    (he : event = .cancel ∨ ∃ reason, event = .decline reason) :
    v.Unannounced (w.successor next "") ∧ next.state ≠ .requesting := by
  obtain rfl : message = none := by
    apply hrow.silent
    rintro p c rfl
    rcases he with h | ⟨reason, h⟩ <;> cases h
  refine ⟨?_, hrow.state_ne_requesting⟩
  rcases he with rfl | ⟨reason, rfl⟩
  · have hs : next.state = .cancelled := by
      cases hrow
      exact state_eq rfl
    exact h.successor hrow trivial (by simp [hs]) (by simp [hs])
  · have hs : next.state = .terminating := by
      cases hrow
      exact state_eq rfl
    exact h.successor hrow trivial (by simp [hs]) (by simp [hs])

theorem Unannounced.state_mem (h : v.Unannounced w) :
    w.state ∈ [.requesting, .terminating, .cancelled, .error] := by
  rcases h.state with ⟨hs, -⟩ | hbroken
  · simp [hs]
  · have hunended := h.unended
    cases hs : w.state <;> simp [hs, State.isBroken] at hbroken hunended ⊢

theorem Unannounced.commanded (h : v.Unannounced w) (hs : w.state = .requesting) (c : Command)
    (now : Instant) : ∃ next, w.transition c.event now "" = .applied next none := by
  cases c with
  | cancel =>
    refine ⟨w.enter .cancelled now, ?_⟩
    simp only [transition, Command.event, h.role, hs]
    rfl
  | decline id reason =>
    refine ⟨{ w.enter .terminating now with errorDetail := reason }, ?_⟩
    simp only [transition, Command.event, hs]
    rfl

theorem Unannounced.grants (h : v.Unannounced w) {s : Store} (hid : v.id ≠ "")
    (hw : s.find? v.id = some w) (hfree : ∀ key, s.leases.get? key = none)
    (hs : w.state = .requesting) : s.Grants w "" := by
  refine ⟨h.id.symm ▸ hid, ?_, h.id.symm ▸ hw, fun lease hl => ?_⟩
  · rcases h.state with ⟨-, hcount⟩ | hbroken
    · rw [hcount]
      decide
    · rw [hs] at hbroken
      cases hbroken
  · rw [hfree] at hl
    cases hl

end Negotiation

theorem Command.event_cases (c : Command) :
    c.event = .cancel ∨ ∃ reason, c.event = .decline reason := by
  cases c with
  | cancel => exact .inl rfl
  | decline id reason => exact .inr ⟨reason, rfl⟩

namespace Store

variable {s t : Store} {v w next : Negotiation}

theorem Evolves.correlationId_of_requesting (h : s.Evolves t) (hs : s.records = []) :
    ∀ n ∈ t.records, n.state = .requesting → n.correlationId = "" := by
  refine h.forall (P := fun n => n.state = .requesting → n.correlationId = "") ?_ ?_ ?_
  · rintro w (⟨_, _, hw⟩ | ⟨_, _, _, _, hw⟩)
    · exact fun _ => hw.correlationId
    · intro hstate
      rw [state_eq hw.stateCode] at hstate
      cases hstate
  · rintro v event agreementId peer w ⟨now, next, message, ht, rfl⟩ - - - hstate
    rw [state_successor] at hstate
    exact absurd hstate (row_of_transition ht).state_ne_requesting
  · simp [hs]

theorem Saved.eq_successor (h : s.Saved next w t) (hv : s.find? v.id = some v)
    (hc : v.Continues next) : w = v.successor next "" := by
  rw [successor, correlate_empty]
  cases h with
  | first _ _ hnone =>
    rw [hc.id, hv] at hnone
    cases hnone
  | next => rw [hc.stateCount]

end Store

namespace Site

variable {s t : Site} {m : Manager} {role : Role} {now : Instant} {c : QueuedCommand}
  {v w : Negotiation} {coming coming' : Prop} {holder : String}

def HasCommand (s : Site) (id : String) : Prop :=
  (s.workload .consumer).queue.pending.get? id ≠ none

/-- Nobody has heard of the record `v`, and nobody is going to hear of its request: while it is
still to be made, a command for it waits or is coming. -/
def Withholds (s : Site) (v : Negotiation) (coming : Prop) : Prop :=
  ∃ w, s.store.find? v.id = some w ∧ v.Unannounced w ∧
    (w.state = .requesting → s.HasCommand v.id ∨ coming)

theorem Withholds.keeps (h : s.Withholds v coming)
    (hfind : ∀ w, v.Unannounced w → s.store.find? v.id = some w → t.store.find? v.id = some w)
    (hcommands : s.HasCommand v.id → t.HasCommand v.id) : t.Withholds v coming := by
  obtain ⟨w, hw, hu, hc⟩ := h
  exact ⟨w, hfind w hu hw, hu, fun hs => (hc hs).imp_left hcommands⟩

theorem Withholds.eases (h : s.Withholds v coming) (he : s.Eases t)
    (hfind : ∀ w, v.Unannounced w → s.store.find? v.id = some w → t.store.find? v.id = some w) :
    t.Withholds v coming := by
  apply h.keeps hfind
  unfold HasCommand
  rw [he.pending]
  exact id

theorem Withholds.imp (h : s.Withholds v coming) (hc : coming → coming') :
    s.Withholds v coming' := by
  obtain ⟨w, hw, hu, hcommands⟩ := h
  exact ⟨w, hw, hu, fun hs => (hcommands hs).imp_right hc⟩

theorem Withholds.records (h : s.Withholds v coming) (hrec : t.store.records = s.store.records)
    (hworkload : t.workload .consumer = s.workload .consumer) : t.Withholds v coming := by
  apply h.keeps
  · intro w _ hw
    rwa [Store.find?, hrec]
  · unfold HasCommand
    rw [hworkload]
    exact id

theorem hasCommand_push (s : Site) (role : Role) (c : QueuedCommand) (id : String)
    (h : s.HasCommand id) : (s.update role (·.mapQueue (·.push c))).HasCommand id := by
  unfold HasCommand at *
  rw [workload_update]
  split
  · rename_i hr
    subst hr
    simp only [Workload.mapQueue, CommandQueue.push, Table.get?_insert]
    split
    · simp
    · exact h
  · exact h

theorem Withholds.push (h : s.Withholds v coming) (role : Role) (c : QueuedCommand) :
    (s.update role (·.mapQueue (·.push c))).Withholds v coming := by
  apply h.keeps _ (s.hasCommand_push role c v.id)
  intro w _ hw
  rwa [store_update]

theorem Withholds.take (h : s.Withholds v False) (ht : s.Tallied) (role : Role) (limit : Nat) :
    (s.update role (·.mapQueue fun q => (q.dequeue limit).2)).Withholds v
      (role = .consumer ∧
        ∃ c ∈ ((s.workload role).queue.dequeue limit).1, c.command.target = v.id) := by
  obtain ⟨w, hw, hu, hc⟩ := h
  refine ⟨w, by rwa [store_update], hu, fun hs => ?_⟩
  have hcommands := (hc hs).resolve_right id
  unfold HasCommand at *
  rw [workload_update]
  by_cases hr : role = .consumer
  · subst hr
    rw [if_pos rfl]
    exact ((ht .consumer).dequeue_cases hcommands limit).imp_right fun hc => ⟨rfl, hc⟩
  · rw [if_neg fun h => hr h.symm]
    exact .inl hcommands

theorem Obeys.hasCommand {id : String} (h : s.Obeys m c now t) (hs : s.HasCommand id) :
    t.HasCommand id := by
  cases h with
  | idle => exact hs
  | written _ _ w _ _ _ _ _ hsaved =>
    unfold HasCommand
    rwa [((eases_record hsaved.leases m.role w.id).trans (eases_wake _ m.role)).pending]
  | requeued => exact hasCommand_push s m.role _ id hs

theorem Withholds.obey_target (h : s.Withholds v coming) (hid : v.id ≠ "")
    (hfree : ∀ key, s.store.leases.get? key = none) (hrole : m.role = .consumer)
    (htarget : c.command.target = v.id) : (s.obey m c now now).Withholds v coming' := by
  obtain ⟨w, hw, hu, -⟩ := h
  have hr : w.role = some m.role := hrole ▸ hu.role
  have hfound : s.store.find? w.id = some w := hu.id.symm ▸ hw
  have stays {t : Site} (ht : t.store = s.store) (hs : w.state ≠ .requesting) :
      t.Withholds v coming' := ⟨w, ht ▸ hw, hu, fun h => absurd h hs⟩
  unfold obey
  simp only [htarget, hw, hr, ne_eq, not_true_eq_false, if_false]
  cases ht : w.transition c.command.event now "" with
  | rejected | unchanged =>
    apply stays rfl
    intro hs
    obtain ⟨next, happlied⟩ := hu.commanded hs c.command now
    rw [happlied] at ht
    cases ht
  | applied next message =>
    have hrow := row_of_transition ht
    obtain ⟨hunannounced, hnext⟩ := hu.moved hrow c.command.event_cases
    dsimp only
    cases hsave : s.store.save next "" now with
    | error error =>
      -- with no leases in the store, only a state count of zero can stand in the way
      have hs : w.state ≠ .requesting := by
        intro hs
        have hgranted := (hu.grants hid hw hfree hs).save hrow.continues "" now
        rw [correlate_empty, hsave] at hgranted
        cases hgranted
      dsimp only
      split
      · exact stays (store_update ..) hs
      · exact stays rfl hs
    | ok saved =>
      obtain ⟨x, store⟩ := saved
      have hsaved := Store.saved_of_save hsave
      obtain rfl := hsaved.eq_successor hfound hrow.continues
      refine ⟨_, ?_, hunannounced, fun hs => absurd (state_successor w next "" ▸ hs) hnext⟩
      rw [store_wake, store_record, hsaved.find?, if_pos hunannounced.id.symm]

theorem Withholds.obey_other (h : s.Withholds v coming) (hobeys : s.Obeys m c now t)
    (hother : ¬ (m.role = .consumer ∧ c.command.target = v.id)) : t.Withholds v coming := by
  apply h.keeps _ hobeys.hasCommand
  intro w hu hw
  cases hobeys with
  | idle => exact hw
  | written y next x message store hy hrole ht hsaved =>
    rw [store_wake, store_record, hsaved.find?, if_neg]
    · exact hw
    · intro hid
      have htarget : c.command.target = v.id := by
        rw [hid, hsaved.id, (row_of_transition ht).continues.id, Store.id_of_find? hy]
      rw [htarget, hw] at hy
      obtain rfl := Option.some.inj hy
      rw [hu.role] at hrole
      exact hother ⟨(Option.some.inj hrole).symm, htarget⟩
  | requeued => rwa [store_update]

def attempt (s : Site) (m : Manager) (now : Instant) (v : Negotiation) (text : String) : Site :=
  let counted := s.update m.role fun w =>
    { w with retries := (w.retries.recordFailure m.options.backoff v.id now).2 }
  if ((s.workload m.role).retries.recordFailure m.options.backoff v.id now).1 then
    counted.conclude m.role now m.leaseHolder
      { v.enter .error now with errorDetail := "dispatch retries exhausted: " ++ text }
  else counted

variable {text : String}

theorem attempt_cases (s : Site) (m : Manager) (now : Instant) (v : Negotiation) (text : String) :
    (s.attempt m now v text).store = s.store ∨ ∃ x store, s.store.Saved
      { v.enter .error now with errorDetail := "dispatch retries exhausted: " ++ text } x store ∧
        (s.attempt m now v text).store = store := by
  unfold attempt
  dsimp only
  split
  · unfold conclude
    rw [store_update]
    split
    · rename_i x store hsave
      exact .inr ⟨x, store, Store.saved_of_save hsave, store_record ..⟩
    · exact .inl (store_update ..)
  · exact .inl (store_update ..)

theorem attempt_last (hg : s.store.Grants v m.leaseHolder) (hterm : v.state.isTerminal = false)
    (hlimit : m.options.backoff.limit ≤ (s.workload m.role).retries.attempts v.id + 1) :
    ∃ x, (s.attempt m now v text).store.find? v.id = some x ∧ x.state = .error := by
  let next : Negotiation :=
    { v.enter .error now with errorDetail := "dispatch retries exhausted: " ++ text }
  have hrow : Row v now "" (.fail _) next none := .fail _ hterm
  have hc := hrow.continues
  have hsaved : s.store.save next m.leaseHolder now =
      .ok (v.successor next "", s.store.replace (v.successor next "")) := by
    have hsave := hg.save hc "" now
    rwa [correlate_empty] at hsave
  refine ⟨v.successor next "", ?_, ?_⟩
  · unfold attempt
    rw [if_pos (RetryLog.exhausted_iff.mpr hlimit), conclude, store_update, hsaved]
    dsimp only
    rw [store_record, ← hc.id_successor "", Store.find?_replace, if_pos rfl, hc.id_successor,
      hg.stored]
    rfl
  · rw [state_successor]
    exact state_eq rfl

theorem attempt_counts
    (hlimit : ¬ m.options.backoff.limit ≤ (s.workload m.role).retries.attempts v.id + 1) :
    (s.attempt m now v text).store = s.store ∧
      ((s.attempt m now v text).workload m.role).retries.attempts v.id =
        (s.workload m.role).retries.attempts v.id + 1 := by
  have hmore : ¬ ((s.workload m.role).retries.recordFailure m.options.backoff v.id now).1 = true :=
    fun h => hlimit (RetryLog.exhausted_iff.mp h)
  unfold attempt
  rw [if_neg hmore]
  refine ⟨store_update .., ?_⟩
  rw [workload_update, if_pos rfl, RetryLog.attempts_recordFailure, if_neg hmore]

theorem withholds_attempt {id : String} (hw : s.store.find? v.id = some w) (hu : v.Unannounced w)
    (hs : w.state = .terminating) :
    ((s.attempt m now w (Loopback.unknown v.id)).release now holder id).Withholds v coming := by
  rcases attempt_cases s m now w (Loopback.unknown v.id) with he | ⟨x, store, hsaved, he⟩
  · refine ⟨w, ?_, hu, fun h => by simp [hs] at h⟩
    rwa [Store.find?, records_release, he]
  · have hrow : Row w now "" (.fail _) _ none :=
      .fail ("dispatch retries exhausted: " ++ Loopback.unknown v.id) (by rw [hs]; rfl)
    have hstate : ({ w.enter .error now with errorDetail :=
        "dispatch retries exhausted: " ++ Loopback.unknown v.id } : Negotiation).state = .error :=
      state_eq rfl
    obtain rfl := hsaved.eq_successor (hu.id.symm ▸ hw) hrow.continues
    have hunannounced := hu.successor hrow trivial (by simp [hstate]) fun _ => rfl
    refine ⟨_, ?_, hunannounced, fun h => by simp [state_successor, hstate] at h⟩
    rw [Store.find?, records_release, he]
    exact (hsaved.find? v.id).trans (if_pos hunannounced.id.symm)

end Site

namespace Network

variable {n : Nat} {roster : Roster n} {ids : Nat → String} {i j k : Fin n} {net net' : Network n}
  {m : Manager} {send : Transport (Network n)} {v w next : Negotiation} {role : Role}
  {ns : List Negotiation} {drawn : Nat} {text : String} {message : RemoteMessage}

theorem deliver_fails (hsend : Yields (send message) net fun answer t =>
      answer = .transient text ∧ t = net) (hterm : v.state.isTerminal = false) :
    Yields (m.deliver (environment ids i) send v next message) net fun settled net' =>
      if settled then Alters i (((net.site i).attempt m net.now v text).release net.now
        m.leaseHolder v.id) net net'
      else Alters i ((net.site i).attempt m net.now v text) net net' := by
  apply hsend.bind
  rintro _ t ⟨rfl, rfl⟩
  apply (recordFailure_yields m v.id).bind
  rintro ⟨exhausted, attempts⟩ u ⟨hlast, hu⟩
  dsimp only at hlast ⊢
  unfold Site.attempt
  rw [← hlast]
  cases exhausted with
  | true =>
    apply (report_yields (i := i) _).bind
    intro _ u' hu'
    apply (concludeFailed_yields m _ hterm).bind
    intro _ t' ht'
    rw [hu'.site, hu'.now, hu.site, hu.now] at ht'
    exact yields_pure.mpr (hu.trans (hu'.trans ht'))
  | false =>
    apply (report_yields (i := i) _).bind
    intro _ u' hu'
    apply (release_yields m v.id).bind
    intro _ t' ht'
    rw [hu'.site, hu'.now, hu.site, hu.now] at ht'
    exact yields_pure.mpr (hu.trans (hu'.trans ht'))

theorem processLeased_fails (ht : v.transition m.turn net.now
      (if v.drawsId m.turn then ids net.issued else "") = .applied next (some message))
    (hsend : ∀ t, Alters i (net.site i) net t → Yields (send message) t fun answer u =>
      answer = .transient text ∧ u = t) :
    Yields (m.processLeased (environment ids i) send v) net fun _ net' =>
      Alters i (((net.site i).attempt m net.now v text).release net.now m.leaseHolder v.id)
        net net' := by
  have hterm := (row_of_transition ht).isTerminal
  have hadvance : Yields (m.advance (environment ids i) send v) net fun settled t =>
      if settled then Alters i (((net.site i).attempt m net.now v text).release net.now
        m.leaseHolder v.id) net t
      else Alters i ((net.site i).attempt m net.now v text) net t := by
    apply (transition_yields v m.turn).bind
    rintro outcome t ⟨rfl, ha⟩
    rw [ht]
    apply (deliver_fails (hsend t ha) hterm).mono
    intro settled u hu
    rw [ha.site, ha.now] at hu
    split
    · rename_i hs
      rw [if_pos hs] at hu
      exact ha.trans hu
    · rename_i hs
      rw [if_neg hs] at hu
      exact ha.trans hu
  apply hadvance.attempt.bind
  rintro _ t ⟨settled, rfl, ht⟩
  cases settled with
  | true => exact yields_pure.mpr ht
  | false =>
    replace ht : Alters i ((net.site i).attempt m net.now v text) net t := ht
    apply (release_yields m v.id).mono
    intro _ u hu
    rw [ht.site, ht.now] at hu
    exact ht.trans hu

theorem processLeased_passes (ht : ∀ now agreementId next message,
      v.transition m.turn now agreementId ≠ .applied next message) :
    Yields (m.processLeased (environment ids i) send v) net fun _ net' =>
      Alters i ((net.site i).release net.now m.leaseHolder v.id) net net' := by
  have passes {t : Network n} (ha : Alters i (net.site i) net t) (notice : Notice) :
      Yields ((environment ids i).report notice >>= fun _ =>
        m.release (environment ids i) v.id >>= fun _ => pure true) t fun settled u =>
          settled = true ∧
            Alters i ((net.site i).release net.now m.leaseHolder v.id) net u := by
    apply (report_yields (i := i) notice).bind
    intro _ u hu
    apply (release_yields m v.id).bind
    intro _ u' hu'
    rw [hu.site, hu.now, ha.site, ha.now] at hu'
    exact yields_pure.mpr ⟨rfl, ha.trans (hu.trans hu')⟩
  have hadvance : Yields (m.advance (environment ids i) send v) net fun settled u =>
      settled = true ∧ Alters i ((net.site i).release net.now m.leaseHolder v.id) net u := by
    apply (transition_yields v m.turn).bind
    rintro outcome t ⟨houtcome, ha⟩
    cases outcome with
    | rejected => exact passes ha _
    | unchanged => exact passes ha _
    | applied next message => exact absurd houtcome.symm (ht _ _ _ _)
  apply hadvance.attempt.bind
  rintro _ t ⟨_, rfl, rfl, ha⟩
  exact yields_pure.mpr ha

theorem send_unknown {x : TerminationMessage}
    (hj : net.addresses.get? x.counterPartyAddress = some j)
    (hnone : (net.site j).store.findByCorrelation? x.processId = none) :
    Yields (Network.send roster i (.termination x)) net fun answer t =>
      answer = .transient (Loopback.unknown x.processId) ∧ t = net := by
  have hfind : Yields ((environment roster.ids j).findByCorrelation x.processId) net
      fun found t => found = none ∧ t = net := ⟨_, _, rfl, hnone, rfl⟩
  have hreceive (token : ClaimToken) : Yields (Service.receive (roster.connector j)
      (environment roster.ids j) (.termination x) token) net fun r t =>
        r = some (.error (.uncorrelated x.processId)) ∧ t = net := by
    have hcall : Yields (Service.terminated (roster.connector j) (environment roster.ids j) x) net
        fun r t => r = .error (.uncorrelated x.processId) ∧ t = net := by
      apply call_yields
      apply hfind.bind
      rintro _ t ⟨rfl, rfl⟩
      exact yields_pure.mpr ⟨rfl, rfl⟩
    apply (hcall.map some).mono
    rintro _ t ⟨r, rfl, rfl, ht⟩
    exact ⟨rfl, ht⟩
  apply (send_yields hj (hreceive _)).mono
  rintro _ t ⟨_, rfl, rfl, rfl⟩
  exact ⟨rfl, rfl⟩

section Frame

variable {coming coming' : Prop} {site : Site} {id : String}

theorem withholds_of_alters (ha : Alters k site net net') (hown : k = i → site.Withholds v coming)
    (hother : k ≠ i → (net.site i).Withholds v coming) : (net'.site i).Withholds v coming := by
  by_cases hk : k = i
  · subst hk
    rw [ha.site]
    exact hown rfl
  · rw [site_of_confined ha.toConfined fun h => hk h.symm]
    exact hother hk

variable (h : (net.site i).Withholds v coming)
include h

theorem withholds_touches (ht : Touches k role id net net') (hid : id ≠ v.id) (hne : id ≠ "") :
    (net'.site i).Withholds v coming := by
  apply h.keeps
  · intro w hu hw
    rw [← hu.id] at hw hid ⊢
    exact ht.spared i w hid.symm (hu.correlationId ▸ hne.symm) hw
  · unfold Site.HasCommand
    by_cases hi : i = k
    · subst hi
      rw [ht.own.pending]
      exact fun h => h
    · rw [(ht.others i hi).pending]
      exact fun h => h

theorem withholds_of_effect {moves : Negotiation → Event → Prop} {opens keeps : Negotiation → Prop}
    {r : Except Fault (Except Refusal Negotiation)}
    (he : (focus k).Effect ids net moves opens keeps r net')
    (heases : (net.site k).Eases (net'.site k))
    (hm : ∀ x event, moves x event → x.role = some .provider) :
    (net'.site i).Withholds v coming := by
  by_cases hi : i = k
  · subst hi
    apply h.eases heases
    intro w hu hw
    show ((focus i).store net').find? v.id = some w
    cases he with
    | refused hk | kept _ hk =>
      rw [hk.store]
      exact hw
    | moved x y event agreementId hc hx hid hmoved =>
      rw [hmoved.find?, if_neg]
      · exact hw
      · intro hvy
        rw [hvy, hmoved.follows.id] at hw
        obtain rfl := Option.some.inj (hmoved.stored.symm.trans hw)
        have hrole := (hm x event hx).symm.trans hu.role
        simp at hrole
    | opened y l hc _ _ _ hopens hopened =>
      rw [hopened.find?, if_neg]
      · exact hw
      · intro hvy
        rw [hvy] at hw
        cases hopened.fresh.symm.trans hw
  · rwa [site_of_confined he.confined hi]

end Frame

section Turn

variable (h : Consistent roster net) (hf : net.finder i v.id = some w) (hu : v.Unannounced w)
include h hf hu

theorem unreferred_of_unannounced {x : Negotiation} (hx : x ∈ (net.site k).store.records) :
    x.correlationId ≠ v.id := by
  have hxf : net.finder k x.id = some x := (h.tidy k).find?_of_mem hx
  have hw : net.finder i w.id = some w := hu.id.symm ▸ hf
  rw [← hu.id]
  exact h.accord.not_refers_of_unanswered hw hu.role hu.toUnanswered hxf

theorem unknown_of_unannounced (k : Fin n) : (net.site k).store.findByCorrelation? v.id = none := by
  cases hx : (net.site k).store.findByCorrelation? v.id with
  | none => rfl
  | some x =>
    obtain ⟨hmem, href, -⟩ := Store.correlationId_of_findByCorrelation? hx
    exact absurd href (unreferred_of_unannounced h hf hu hmem)

variable (hroute : net.addresses.get? v.counterPartyAddress ≠ none)
include hroute

theorem terminating_fails (hs : w.state = .terminating) :
    Yields (m.processLeased (environment roster.ids i) (Network.send roster i) w) net
      fun _ net' => Alters i (((net.site i).attempt m net.now w (Loopback.unknown v.id)).release
        net.now m.leaseHolder w.id) net net' := by
  obtain ⟨j, hj⟩ := Option.ne_none_iff_exists'.mp hroute
  have ht (agreementId : String) : w.transition m.turn net.now agreementId =
      .applied (w.enter .terminated net.now) (some (.termination ⟨w.routing, w.errorDetail⟩)) := by
    simp only [Manager.turn, transition, advance, hs, if_true]
  apply processLeased_fails (ht _)
  intro t ha
  rw [← hu.id]
  have haddresses := addresses_of_confined ha.toConfined
  apply send_unknown (j := j)
  · rw [haddresses]
    show net.addresses.get? w.counterPartyAddress = some j
    rw [hu.address, hj]
  · rw [sites_of_keeps ha]
    show (net.site j).store.findByCorrelation? w.id = none
    rw [hu.id]
    exact unknown_of_unannounced h hf hu j

theorem unannounced_turn (hs : w.state ≠ .requesting) :
    Yields (m.processLeased (environment roster.ids i) (Network.send roster i) w) net
      fun _ net' => (net'.site i).Withholds v False := by
  by_cases hterminating : w.state = .terminating
  · apply (terminating_fails h hf hu hroute hterminating).mono
    intro _ net' ha
    rw [ha.site]
    exact Site.withholds_attempt hf hu hterminating
  · have hterminal : w.state.isTerminal = true := by
      have hmem := hu.state_mem
      simp only [List.mem_cons, hs, hterminating, List.not_mem_nil, or_false, false_or] at hmem
      rcases hmem with h | h <;> rw [h] <;> rfl
    apply (processLeased_passes fun now agreementId next message ht => ?_).mono
    · intro _ net' ha
      refine ⟨w, ?_, hu, fun h => absurd h hs⟩
      rw [ha.site, Store.find?, Site.records_release]
      exact hf
    · have hactive := (row_of_transition ht).isTerminal
      rw [hterminal] at hactive
      cases hactive

end Turn

end Network

end ContractNegotiation
