import ContractNegotiation.Proofs.Page
import ContractNegotiation.Proofs.Transition.Table

namespace ContractNegotiation

open ContractNegotiation.Action Negotiation

structure Ending where
  version : Option Negotiation
  tries : Option RetryEntry
  message : Option RemoteMessage

namespace Manager

variable (m : Manager) (v : Negotiation)

def failure (cause : String) (now : Instant) (message : RemoteMessage) : Ending where
  version := some (v.successor ((v.transition (.fail cause) now "").next v) "")
  tries := none
  message := message

def reaction (next : Negotiation) (message : RemoteMessage) (tries : Option RetryEntry)
    (counted failed : Instant) : Except Fault DispatchResult → Ending
  | .ok (.ok peer) => ⟨some (v.successor next peer), none, message⟩
  | .ok (.transient text) =>
    let attempts := RetryEntry.count tries + 1
    if m.options.backoff.limit ≤ attempts then
      failure v ("dispatch retries exhausted: " ++ text) failed message
    else ⟨none, some ⟨attempts, counted.later (m.options.backoff.delay attempts)⟩, message⟩
  | .ok (.fatal text) => failure v text failed message
  | .error _ => ⟨none, tries, message⟩

/-- The ending of a turn. Tries are forgotten with the version they were made for, but after the
last possible version nothing is stored. -/
def ending (tries : Option RetryEntry) (begun counted failed : Instant) (agreementId : String)
    (answer : RemoteMessage → Except Fault DispatchResult) : Ending :=
  match v.transition m.turn begun agreementId with
  | .applied next (some message) => m.reaction v next message tries counted failed (answer message)
  | .applied next none =>
    ⟨some (v.successor next ""), if v.stateCount = 0 then tries else none, none⟩
  | .unchanged | .rejected => ⟨none, tries, none⟩

structure Suits (e : Ending) : Prop where
  processId : ∀ message, e.message = some message → message.processId = v.id
  speaks : e.message.isSome = v.state.speaks
  version : ∀ w, e.version = some w → ∃ event agreementId peer,
    v.Follows event agreementId peer w ∧ (event = m.turn ∨ v.state.speaks = true ∧ w.state = .error)

variable {m v}

theorem Suits.id {e : Ending} {w : Negotiation} (h : m.Suits v e) (hw : e.version = some w) :
    w.id = v.id := by
  obtain ⟨_, _, _, hfollows, -⟩ := h.version w hw
  exact hfollows.id

theorem suits_failure {next : Negotiation} {message : RemoteMessage} {now : Instant}
    {agreementId : String} (ht : v.transition m.turn now agreementId = .applied next message)
    (cause : String) (failed : Instant) : m.Suits v (failure v cause failed message) := by
  have hrow := row_of_transition ht
  have hspeaks : v.state.speaks = true := hrow.isSome_message.symm
  have hfail : v.transition (.fail cause) failed "" =
      .applied { v.enter .error failed with errorDetail := cause } none := by
    simp [transition, hrow.isTerminal]
  refine ⟨?_, hspeaks.symm, ?_⟩
  · rintro _ ⟨⟩
    exact hrow.routing.1
  · rintro _ ⟨⟩
    rw [hfail]
    refine ⟨_, _, _, ⟨_, _, _, hfail, rfl⟩, .inr ⟨hspeaks, ?_⟩⟩
    exact (state_successor ..).trans (state_enter v .error failed)

theorem suits_ending (h : ∀ now agreementId, ∃ next message,
      v.transition m.turn now agreementId = .applied next message) (tries : Option RetryEntry)
    (begun counted failed : Instant) (agreementId : String)
    (answer : RemoteMessage → Except Fault DispatchResult) :
    m.Suits v (m.ending v tries begun counted failed agreementId answer) := by
  obtain ⟨next, message, ht⟩ := h begun agreementId
  have hrow := row_of_transition ht
  have hspeaks := hrow.isSome_message
  simp only [ending, ht]
  cases message with
  | none =>
    refine ⟨by simp, hspeaks, ?_⟩
    rintro _ ⟨⟩
    exact ⟨_, _, _, ⟨_, _, _, ht, rfl⟩, .inl rfl⟩
  | some message =>
    have silent (tries : Option RetryEntry) : m.Suits v ⟨none, tries, some message⟩ :=
      ⟨fun _ hm => Option.some.inj hm ▸ hrow.routing.1, hspeaks, by simp⟩
    dsimp only
    rcases answer message with fault | peer | text | text
    · exact silent tries
    · refine ⟨(silent none).processId, hspeaks, ?_⟩
      rintro _ ⟨⟩
      exact ⟨_, _, _, ⟨_, _, _, ht, rfl⟩, .inl rfl⟩
    · simp only [reaction]
      split
      · exact suits_failure ht _ _
      · exact silent _
    · exact suits_failure ht _ _

end Manager

namespace Page

variable {p q : Page} {m : Manager} {v next : Negotiation} {e : Ending} {tries : Option RetryEntry}
  {message : Option RemoteMessage} {version : Option Negotiation}

def news (v : Negotiation) (e : Ending) : List Negotiation :=
  if v.stateCount = 0 then [] else e.version.toList

theorem id_of_mem_news {w : Negotiation} (hs : m.Suits v e) (hw : w ∈ news v e) : w.id = v.id := by
  unfold news at hw
  split at hw
  · cases hw
  · exact hs.id (Option.mem_toList.mp hw)

structure Marks (p : Page) (m : Manager) (v : Negotiation) (e : Ending) (q : Page) : Prop where
  names : q.site.store.records.map Negotiation.id = p.site.store.records.map Negotiation.id
  queue : ∀ role, (q.site.workload role).queue = (p.site.workload role).queue
  tries : ∀ role id, q.site.tries role id =
    if role = m.role ∧ id = v.id then e.tries else p.site.tries role id
  sent : q.sent = p.sent ++ e.message.toList
  written : q.written = p.written ++ news v e

structure Turns (p : Page) (m : Manager) (v : Negotiation) (e : Ending) (q : Page) : Prop
    extends p.Marks m v e q where
  settles : p.site.store.Settles v e.version q.site.store

theorem marks_start (p : Page) (m : Manager) (v : Negotiation) :
    p.Marks m v ⟨none, p.site.tries m.role v.id, none⟩ p := by
  refine ⟨rfl, fun _ => rfl, fun role id => ?_, by simp, by simp [news]⟩
  split
  · rename_i h
    rw [h.1, h.2]
  · rfl

theorem Marks.send (h : p.Marks m v ⟨none, tries, none⟩ q) (message : RemoteMessage) :
    p.Marks m v ⟨none, tries, some message⟩ (q.post message) := by
  refine ⟨h.names, h.queue, h.tries, ?_, h.written⟩
  simp [post, h.sent]

theorem Marks.update (h : p.Marks m v ⟨version, tries, message⟩ q) {f : Workload → Workload}
    {after : Option RetryEntry} (hqueue : ∀ w, (f w).queue = w.queue)
    (htries : ∀ id, (f (q.site.workload m.role)).retries.entries.get? id =
      if id = v.id then after else q.site.tries m.role id) :
    p.Marks m v ⟨version, after, message⟩ (q.update m.role f) := by
  refine ⟨?_, fun role => ?_, fun role id => ?_, h.sent, h.written⟩
  · rw [Page.update, Site.store_update, h.names]
  · rw [Page.update, Site.workload_update]
    split
    · rename_i hrole
      rw [hqueue, ← hrole, h.queue]
    · exact h.queue role
  · rw [Page.update, Site.tries_update]
    by_cases hrole : role = m.role
    · rw [if_pos hrole, htries]
      by_cases hid : id = v.id
      · rw [if_pos hid, if_pos ⟨hrole, hid⟩]
      · rw [if_neg hid, if_neg fun hn => hid hn.2, h.tries, if_neg fun hn => hid hn.2, hrole]
    · rw [if_neg hrole, if_neg fun hn => hrole hn.1, h.tries, if_neg fun hn => hrole hn.1]

theorem Marks.clear (h : p.Marks m v ⟨version, tries, message⟩ q) :
    p.Marks m v ⟨version, none, message⟩ (q.update m.role (·.clearRetries v.id)) :=
  h.update (fun _ => rfl) fun id => RetryLog.get?_clear _ v.id id

theorem Marks.release (h : p.Marks m v e q) (now : Instant) (holder id : String) :
    p.Marks m v e (q.release now holder id) := by
  refine ⟨?_, fun role => ?_, fun role key => ?_, h.sent, h.written⟩
  · rw [Page.release, Site.records_release, h.names]
  · rw [Page.release, Site.workload_release, h.queue]
  · rw [Page.release, Site.tries, Site.workload_release]
    exact h.tries role key

theorem Marks.save (h : p.Marks m v ⟨none, tries, message⟩ q) (hcount : v.stateCount ≠ 0)
    {store : Store} (hids : store.records.map Negotiation.id =
      q.site.store.records.map Negotiation.id) (w : Negotiation) :
    p.Marks m v ⟨some w, tries, message⟩ (q.save w store) := by
  refine ⟨hids.trans h.names, fun role => ?_, fun role id => ?_, h.sent, ?_⟩
  · rw [Page.save, Site.workload_store]
    exact h.queue role
  · rw [Page.save, Site.tries, Site.workload_store]
    exact h.tries role id
  · simp [Page.save, news, hcount, h.written]

theorem Marks.conclude (h : p.Marks m v ⟨none, tries, message⟩ q) (hv : q.site.store.Lends m v)
    (hc : v.Continues next) (peer : String) (now : Instant) :
    p.Marks m v
      ⟨some (v.successor next peer), if v.stateCount = 0 then tries else none, message⟩
      (q.conclude m now (next.correlate peer)) := by
  by_cases hcount : v.stateCount = 0
  · have hsave := hv.save_exhausted hc hcount peer now
    have hkept : q.conclude m now (next.correlate peer) = q := by simp only [Page.conclude, hsave]
    rw [hkept]
    refine ⟨h.names, h.queue, ?_, h.sent, ?_⟩
    · simpa only [hcount, if_true] using h.tries
    · simpa only [news, hcount, if_true] using h.written
  · have hsave := Store.Grants.save ⟨hv.id, hcount, hv.stored, hv.lease⟩ hc peer now
    have hconclude : q.conclude m now (next.correlate peer) =
        q.record m.role (v.successor next peer)
          (q.site.store.replace (v.successor next peer)) := by
      simp only [Page.conclude, hsave]
    rw [hconclude, if_neg hcount, Page.record, hc.id_successor]
    exact (h.save hcount (Store.ids_replace _ _) _).clear

end Page

def Manager.Expects {σ : Type} (m : Manager) (env : Environment σ) (time : σ → Instant)
    (send : Transport σ) (p : Page) (s : σ) (v : Negotiation) (e : Ending) : Prop :=
  ∃ agreementId t counted failed, (v.drawsId m.turn = false → agreementId = "") ∧
    env.transition v m.turn s = .ok (v.transition m.turn (time s) agreementId) t ∧
    e = m.ending v (p.site.tries m.role v.id) (time s) (time counted) (time failed) agreementId
      fun message => (send message).outcome t

def Page.Posts {σ : Type} (shows : Page → σ → Prop) (send : Transport σ) : Prop :=
  ∀ message p s, shows p s → shows (p.post message) ((send message).after s)

def Page.Advances (p : Page) (m : Manager) (v : Negotiation) (expects : Ending → Prop)
    (r : Except Fault Bool) (q : Page) : Prop :=
  ∃ e, expects e ∧ p.Marks m v e q ∧
    (r = .ok true → p.site.store.Settles v e.version q.site.store) ∧
    (r ≠ .ok true → p.site.store.Writes v e.version q.site.store)

namespace Environment.Situated

variable {σ : Type} {env : Environment σ} {time : σ → Instant} {shows : Page → σ → Prop}
  (h : env.Situated time shows) {m : Manager} {send : Transport σ} {p q : Page} {s t : σ}
  {v next : Negotiation} {message : RemoteMessage} {e : Ending} {expects : Ending → Prop}
  (hv : p.site.store.Lends m v)
include h hv

theorem release_turns (ht : shows q t) (hm : p.Marks m v e q)
    (hw : p.site.store.Writes v e.version q.site.store) :
    Yields (m.release env v.id) t fun _ u => ∃ r, shows r u ∧ p.Turns m v e r := by
  apply (h.release_yields m ht v.id).mono
  intro _ u hu
  exact ⟨_, hu, hm.release _ _ _, Site.settles_release hv hw _⟩

theorem conclude_marks (ht : shows q t) {tries : Option RetryEntry}
    {sent : Option RemoteMessage} (hm : p.Marks m v ⟨none, tries, sent⟩ q)
    (hstore : q.site.store = p.site.store) (hc : v.Continues next) (peer : String) :
    Yields (m.conclude env v (next.correlate peer)) t fun _ u => ∃ r, shows r u ∧
      p.Marks m v ⟨some (v.successor next peer), if v.stateCount = 0 then tries else none, sent⟩
        r ∧ p.site.store.Writes v (some (v.successor next peer)) r.site.store := by
  apply (h.conclude_yields m ht v _).mono
  intro _ u hu
  refine ⟨_, hu, hm.conclude (hstore ▸ hv) hc peer _, ?_⟩
  rw [Page.site_conclude, ← hstore]
  exact Site.writes_conclude (hstore ▸ hv) hc peer _

theorem concludeFailed_marks (ht : shows q t) (hm : p.Marks m v ⟨none, none, some message⟩ q)
    (hstore : q.site.store = p.site.store) (cause : String) :
    Yields (m.concludeFailed env v cause) t fun _ u => ∃ r, shows r u ∧
      p.Marks m v (Manager.failure v cause (time t) message) r ∧
        p.site.store.Writes v (Manager.failure v cause (time t) message).version r.site.store := by
  have hfail : v.transition (.fail cause) (time t) "" =
      .applied { v.enter .error (time t) with errorDetail := cause } none := by
    simp [Negotiation.transition, hv.isTerminal]
  have hversion : Manager.failure v cause (time t) message =
      ⟨some (v.successor { v.enter .error (time t) with errorDetail := cause } ""), none,
        some message⟩ := by
    rw [Manager.failure, next_fail hv.isTerminal]
  apply (h.transition_yields ht v (.fail cause)).bind
  rintro _ u ⟨hu, agreementId, -, rfl⟩
  rw [next_fail hv.isTerminal]
  have hconclude : Yields (m.conclude env v (.correlate _ "")) u _ :=
    h.conclude_marks hv hu hm hstore (row_of_transition hfail).continues ""
  rw [correlate_empty] at hconclude
  apply hconclude.mono
  rintro _ u' ⟨r, hr, hm', hw⟩
  rw [ite_self] at hm'
  rw [hversion]
  exact ⟨r, hr, hm', hw⟩

theorem fails_advances (ht : shows q t) (hm : p.Marks m v ⟨none, none, some message⟩ q)
    (hstore : q.site.store = p.site.store) (notice : Notice) (cause : String)
    (hexpects : ∀ u, expects (Manager.failure v cause (time u) message)) :
    Ends (do
      env.report notice
      m.concludeFailed env v cause
      pure false) t fun r u => ∃ q, shows q u ∧ p.Advances m v expects r q := by
  apply (h.report notice ht).bind_ends
  intro _ u hu
  apply (h.concludeFailed_marks hv hu hm hstore cause).bind_ends
  rintro _ u' ⟨r, hr, hm', hw⟩
  exact ⟨r, hr, _, hexpects u, hm', fun he => (by cases he), fun _ => hw⟩

theorem waits_advances (ht : shows q t) {tries : Option RetryEntry}
    (hm : p.Marks m v ⟨none, tries, some message⟩ q) (hstore : q.site.store = p.site.store)
    (notice : Notice) (hexpects : expects ⟨none, tries, some message⟩) :
    Ends (do
      env.report notice
      m.release env v.id
      pure true) t fun r u => ∃ q, shows q u ∧ p.Advances m v expects r q := by
  apply (h.report notice ht).bind_ends
  intro _ u hu
  have hkept : p.site.store.Writes v none q.site.store := hstore ▸ hv.writes_nothing
  apply (h.release_turns hv hu hm hkept).bind_ends
  rintro _ u' ⟨r, hr, hturns⟩
  exact ⟨r, hr, _, hexpects, hturns.toMarks, fun _ => hturns.settles, fun he => absurd rfl he⟩

omit hv in
theorem clear_marks (ht : shows q t) {tries : Option RetryEntry} {sent : Option RemoteMessage}
    (hm : p.Marks m v ⟨none, tries, sent⟩ q) (hstore : q.site.store = p.site.store) :
    Yields (env.update m.role (·.clearRetries v.id)) t fun _ u => ∃ r, shows r u ∧
      p.Marks m v ⟨none, none, sent⟩ r ∧ r.site.store = p.site.store := by
  apply (h.update_yields ht m.role _).mono
  intro _ u hu
  exact ⟨_, hu, hm.clear, (Site.store_update ..).trans hstore⟩

omit hv in
theorem recordFailure_marks (ht : shows q t) {tries : Option RetryEntry}
    {sent : Option RemoteMessage} (hm : p.Marks m v ⟨none, tries, sent⟩ q)
    (hstore : q.site.store = p.site.store) :
    Yields (m.recordFailure env v.id) t fun answer u => ∃ r, shows r u ∧
      (answer.1 = true ↔ m.options.backoff.limit ≤ RetryEntry.count tries + 1) ∧
      p.Marks m v ⟨none,
        if m.options.backoff.limit ≤ RetryEntry.count tries + 1 then none
        else some ⟨RetryEntry.count tries + 1,
          (time t).later (m.options.backoff.delay (RetryEntry.count tries + 1 : Nat))⟩,
        sent⟩ r ∧ r.site.store = p.site.store := by
  apply (h.recordFailure_yields m ht v.id).mono
  rintro answer u ⟨hexhausted, hu⟩
  let counted (w : Workload) : Workload :=
    { w with retries := (w.retries.recordFailure m.options.backoff v.id (time t)).2 }
  have hm' := hm.update (f := counted) (fun _ => rfl) fun id =>
    RetryLog.get?_recordFailure (q.site.workload m.role).retries m.options.backoff v.id (time t) id
  have hattempts : (q.site.workload m.role).retries.attempts v.id = RetryEntry.count tries := by
    rw [RetryLog.attempts_eq]
    exact congrArg RetryEntry.count ((hm.tries m.role v.id).trans (if_pos ⟨rfl, rfl⟩))
  rw [hattempts] at hm'
  refine ⟨_, hu, ?_, hm', (Site.store_update ..).trans hstore⟩
  rw [← hattempts]
  exact (Bool.eq_iff_iff.mp hexhausted).trans RetryLog.exhausted_iff

section Posts

variable (hsend : Page.Posts shows send)
include hsend

theorem deliver_advances {agreementId : String}
    (hdraws : v.drawsId m.turn = false → agreementId = "")
    (ht : env.transition v m.turn s = .ok (v.transition m.turn (time s) agreementId) t)
    (happlied : v.transition m.turn (time s) agreementId = .applied next (some message))
    (hshown : shows p t) :
    Ends (m.deliver env send v next message) t fun r u => ∃ q, shows q u ∧
      p.Advances m v (m.Expects env time send p s v) r q := by
  have expects (counted failed : σ) : m.Expects env time send p s v
      (m.reaction v next message (p.site.tries m.role v.id) (time counted) (time failed)
        ((send message).outcome t)) :=
    ⟨agreementId, t, counted, failed, hdraws, ht, by simp only [Manager.ending, happlied]⟩
  have hsent : Ends (send message) t fun answer u => shows (p.post message) u ∧
      answer = (send message).outcome t := by
    apply (ends_after.and ends_outcome).mono
    rintro answer u ⟨rfl, hanswer⟩
    exact ⟨hsend message p t hshown, hanswer⟩
  have hm : p.Marks m v ⟨none, p.site.tries m.role v.id, some message⟩ (p.post message) :=
    (Page.marks_start p m v).send message
  apply hsent.bind
  · rintro answer u ⟨hu, hanswer⟩
    rw [← hanswer] at expects
    rcases answer with peer | text | text
    · apply (h.clear_marks hu hm rfl).bind_ends
      rintro _ u' ⟨q, hq, hm', hstore⟩
      apply (h.conclude_marks hv hq hm' hstore (row_of_transition happlied).continues
        peer).bind_ends
      rintro _ t' ⟨r, hr, hm'', hw⟩
      rw [ite_self] at hm''
      exact ⟨r, hr, _, expects t t, hm'', fun he => (by cases he), fun _ => hw⟩
    · apply (h.recordFailure_marks hu hm rfl).bind_ends
      rintro ⟨exhausted, attempts⟩ u' ⟨q, hq, hlast, hm', hstore⟩
      dsimp only
      split
      · rename_i hyes
        have hmany := hlast.mp hyes
        rw [if_pos hmany] at hm'
        refine h.fails_advances hv hq hm' hstore _ _ fun k => ?_
        simpa only [Manager.reaction, if_pos hmany] using expects u k
      · rename_i hno
        have hfew := fun hmany => hno (hlast.mpr hmany)
        have hending := expects u u
        simp only [Manager.reaction, if_neg hfew] at hending
        rw [if_neg hfew] at hm'
        exact h.waits_advances hv hq hm' hstore _ hending
    · apply (h.clear_marks hu hm rfl).bind_ends
      rintro _ u' ⟨q, hq, hm', hstore⟩
      exact h.fails_advances hv hq hm' hstore _ _ fun k => expects t k
  · rintro fault u ⟨hu, hanswer⟩
    rw [← hanswer] at expects
    exact ⟨_, hu, _, expects t t, hm, fun he => (by cases he), fun _ => hv.writes_nothing⟩

theorem advance_advances (hp : shows p s) :
    Ends (m.advance env send v) s fun r u => ∃ q, shows q u ∧
      p.Advances m v (m.Expects env time send p s v) r q := by
  apply (h.transition_yields hp v m.turn).noted.bind_ends
  rintro outcome t ⟨⟨ht, agreementId, hdraws, ho⟩, htransition⟩
  obtain ⟨next, message, happlied⟩ := hv.applied (time s) agreementId
  rw [ho] at htransition
  rw [ho, happlied]
  cases message with
  | some message => exact h.deliver_advances hv hsend hdraws htransition happlied ht
  | none =>
    have hconclude : Yields (m.conclude env v (next.correlate "")) t _ :=
      h.conclude_marks hv ht (Page.marks_start p m v) rfl (row_of_transition happlied).continues ""
    rw [correlate_empty] at hconclude
    apply hconclude.bind_ends
    rintro _ u ⟨q, hq, hm, hw⟩
    refine ⟨q, hq, _, ⟨agreementId, t, t, t, hdraws, htransition, ?_⟩, hm,
      fun he => (by cases he), fun _ => hw⟩
    simp only [Manager.ending, happlied]

theorem processLeased_turns (hp : shows p s) :
    Yields (m.processLeased env send v) s fun _ t => ∃ e q, shows q t ∧
      m.Expects env time send p s v e ∧ p.Turns m v e q := by
  apply (h.advance_advances hv hsend hp).attempted.bind
  rintro (fault | settled) t ⟨q, hq, e, he, hm, hsettles, hwrites⟩
  · apply (h.report _ hq).bind
    intro _ u hu
    apply (h.release_turns hv hu hm (hwrites (by simp))).mono
    rintro _ u' ⟨r, hr, hturns⟩
    exact ⟨e, r, hr, he, hturns⟩
  · cases settled with
    | true => exact yields_pure.mpr ⟨e, q, hq, he, hm, hsettles rfl⟩
    | false =>
      apply (h.release_turns hv hq hm (hwrites (by simp))).mono
      rintro _ u ⟨r, hr, hturns⟩
      exact ⟨e, r, hr, he, hturns⟩

end Posts

end Environment.Situated

end ContractNegotiation
