import ContractNegotiation.Proofs.Manager.Commands
import ContractNegotiation.Proofs.Manager.Retries

namespace ContractNegotiation

open ContractNegotiation.Action

namespace Desk

def ErrorsByLoop (m : Manager) (d : Desk) : Prop :=
  ∀ n holder w, Deed.saved n holder (.ok w) ∈ d.deeds → n.stateCount ≠ 0 → w.state = .error →
    holder = m.leaseHolder

def losesRace (m : Manager) (c : Command) (d : Desk) : Bool :=
  match d.store.find? c.target with
  | none => false
  | some v =>
    v.role = some m.role &&
      match v.transition c.event d.now "" with
      | .applied next _ =>
        match d.answer next "" with
        | .error e => e.isLostRace
        | .ok _ => false
      | _ => false

section Blame

variable {m : Manager} {d d' : Desk} {n next : Negotiation} {holder key : String}
  {answer : Except StoreError Negotiation}

theorem ErrorsByLoop.of_deeds (h : d.ErrorsByLoop m) (hd : d'.deeds = d.deeds) :
    d'.ErrorsByLoop m := by
  rwa [ErrorsByLoop, hd]

theorem ErrorsByLoop.forget (h : d.ErrorsByLoop m) (id : String) :
    (d.forget id).ErrorsByLoop m :=
  h.of_deeds rfl

theorem ErrorsByLoop.mapQueue (h : d.ErrorsByLoop m) (f : CommandQueue → CommandQueue) :
    (d.mapQueue f).ErrorsByLoop m := h.of_deeds rfl

theorem ErrorsByLoop.countFailure {b : Backoff} {exhausted : Bool} (h : d.ErrorsByLoop m)
    (hc : d.countFailure b key = (exhausted, d')) : d'.ErrorsByLoop m := by
  cases hc
  exact h.of_deeds rfl

theorem ErrorsByLoop.saves (h : d.ErrorsByLoop m) (hs : d.Saves next holder answer d')
    (hloop : ∀ w, answer = .ok w → next.stateCount ≠ 0 → next.state = .error →
      holder = m.leaseHolder) : d'.ErrorsByLoop m := by
  intro n' holder' w hmem hc herror
  have hdeeds : d'.deeds = d.deeds ++ [.saved next holder answer] := by cases hs <;> rfl
  rw [hdeeds, List.mem_append, List.mem_singleton] at hmem
  rcases hmem with hmem | hlast
  · exact h n' holder' w hmem hc herror
  · obtain ⟨rfl, rfl, rfl⟩ := Deed.saved.inj hlast
    exact hloop w rfl hc (hs.saved.state ▸ herror)

theorem ErrorsByLoop.persists (h : d.ErrorsByLoop m) (hp : d.Persists next holder answer d')
    (hloop : ∀ w, answer = .ok w → next.stateCount ≠ 0 → next.state = .error →
      holder = m.leaseHolder) : d'.ErrorsByLoop m := by
  cases hp with
  | refused _ _ hs => exact h.saves hs hloop
  | written w _ hs => exact (h.saves hs hloop).forget w.id

theorem ErrorsByLoop.applied {v : Negotiation} {event : Event} {now : Instant}
    {agreementId : String}
    {message : Option RemoteMessage} (h : d.ErrorsByLoop m)
    (ht : v.transition event now agreementId = .applied next message)
    (he : ∀ cause, event ≠ .fail cause) (hp : d.Persists next holder answer d') :
    d'.ErrorsByLoop m := by
  have hstate := (Negotiation.row_of_transition ht).state_ne_error he
  exact h.persists hp fun _ _ _ herror => absurd herror hstate

theorem ErrorsByLoop.tried {c : QueuedCommand} (h : d.ErrorsByLoop m) (ht : d.Tried m c d') :
    d'.ErrorsByLoop m := by
  have he (c : Command) (cause : String) : c.event ≠ .fail cause := by
    cases c <;> simp [Command.event]
  cases ht with
  | missing | foreign | rejected => exact h
  | written _ _ _ _ _ _ _ ht hp => exact (h.applied ht (he _) hp).mapQueue _
  | requeued _ _ _ _ _ _ _ ht hp => exact (h.applied ht (he _) hp).mapQueue _
  | dropped _ _ _ _ _ _ _ ht hp => exact h.applied ht (he _) hp

theorem ErrorsByLoop.served {role : Role} (h : d.ErrorsByLoop m) (hs : d.Served role d') :
    d'.ErrorsByLoop m := by
  cases hs with
  | idle => exact h
  | refused _ _ _ hp => exact h.persists hp fun _ hok => by cases hok
  | moved v next w event message _ _ _ he ht hp =>
    refine (h.applied ht ?_ hp).mapQueue _
    rintro cause rfl
    cases he
  | opened n w _ _ hc hs => exact (h.saves hs fun _ _ hne => absurd hc hne).mapQueue _

theorem ErrorsByLoop.turned
    {Sends : RemoteMessage → Desk → Except Fault DispatchResult → Desk → Prop}
    (hsend : ∀ message d r d', Sends message d r d' → d.ErrorsByLoop m → d'.ErrorsByLoop m)
    (h : d.ErrorsByLoop m) (ht : d.Turned m Sends n d') : d'.ErrorsByLoop m := by
  cases ht with
  | passed => exact h
  | silent _ _ _ _ _ hp => exact h.persists hp fun _ _ _ _ => rfl
  | threw _ _ _ _ _ _ hs => exact hsend _ _ _ _ hs h
  | acknowledged _ _ _ _ _ _ _ _ hs hp =>
    exact ((hsend _ _ _ _ hs h).forget n.id).persists hp fun _ _ _ _ => rfl
  | waits _ _ _ _ _ _ _ hs hc => exact (hsend _ _ _ _ hs h).countFailure hc
  | exhausted _ _ _ _ _ _ _ _ _ _ hs hc hp =>
    exact ((hsend _ _ _ _ hs h).countFailure hc).persists hp fun _ _ _ _ => rfl
  | fatal _ _ _ _ _ _ _ _ hs hp =>
    exact ((hsend _ _ _ _ hs h).forget n.id).persists hp fun _ _ _ _ => rfl

end Blame

theorem ErrorsByLoop.breakLease {m : Manager} {d : Desk} (h : d.ErrorsByLoop m)
    (id holder : String) :
    (d.breakLease id holder).ErrorsByLoop m := by
  refine h.of_deeds ?_
  unfold Desk.breakLease
  split <;> rfl

theorem polls_errorsByLoop (m : Manager) : m.Polls (Sends m) fun _ _ d => d.ErrorsByLoop m where
  drop _ _ _ _ hd _ := hd
  lease _ _ _ _ hd _ := hd.of_deeds rfl
  check _ _ _ _ hd _ := hd
  release _ n _ _ hd := hd.breakLease n.id m.leaseHolder
  turn n _ _ _ hd ht := by
    refine (hd.turned ?_ ht).breakLease n.id m.leaseHolder
    rintro message d r d' ⟨answer, -, ha⟩ hd n' holder w hmem
    rw [ha.deeds, List.mem_append, List.mem_singleton] at hmem
    exact hd n' holder w (hmem.resolve_right nofun)

section Races

variable {m : Manager} {d d' : Desk} {c : QueuedCommand}

theorem Persists.answer_eq {n : Negotiation} {holder : String}
    {answer : Except StoreError Negotiation} (h : d.Persists n holder answer d') :
    (d.answer n holder).map Prod.fst = answer := by
  cases h with
  | refused _ _ hs =>
    cases hs with
    | refused _ he =>
      rw [he]
      rfl
  | written _ _ hs =>
    cases hs with
    | written _ _ hok =>
      rw [hok]
      rfl

theorem Tried.requeues (h : d.Tried m c d') (hl : d.losesRace m c.command = true)
    (hfew : c.attempts + 1 < m.options.commandMaxAttempts) :
    d'.waiting = d.waiting ++ [{ c with attempts := c.attempts + 1 }] := by
  unfold losesRace at hl
  cases h with
  | missing hv => simp [hv] at hl
  | foreign v hv hrole => simp [hv, hrole] at hl
  | rejected v hv hrole ht => simp [hv, hrole, ht] at hl
  | requeued _ _ _ _ _ _ _ _ hp => exact congrArg (· ++ _) hp.waiting
  | written v next w message _ hv hrole ht hp =>
    have hanswer := hp.answer_eq
    cases hd : d.answer next "" with
    | ok _ => simp [hv, hrole, ht, hd] at hl
    | error _ =>
      rw [hd] at hanswer
      cases hanswer
  | dropped v next message e _ hv hrole ht hp hgive =>
    have hanswer := hp.answer_eq
    cases hd : d.answer next "" with
    | ok _ => simp [hv, hrole, ht, hd] at hl
    | error _ =>
      rw [hd] at hanswer
      cases hanswer
      exact absurd ⟨by simpa [hv, hrole, ht, hd] using hl, hfew⟩ hgive

end Races

end Desk

theorem mem_successors {id : String} {count : UInt64} {deeds : List Deed} {holder : String}
    {w : Negotiation} : (holder, w) ∈ successors id count deeds ↔
      ∃ v, .saved v holder (.ok w) ∈ deeds ∧ v.id = id ∧ v.stateCount = count := by
  unfold successors
  rw [List.mem_filterMap]
  constructor
  · rintro ⟨deed, hmem, hdeed⟩
    unfold Deed.successor? at hdeed
    split at hdeed
    · rename_i v holder' w'
      split at hdeed <;> cases hdeed
      exact ⟨v, hmem, by assumption⟩
    · cases hdeed
  · rintro ⟨v, hmem, hv⟩
    exact ⟨_, hmem, by simp [Deed.successor?, hv]⟩

namespace Manager

variable {n : Nat} {m : Manager} {ids : Nat → String} {i : Fin n} {j : Journal n}

theorem Alone.errorsByLoop (h : m.Alone ids i j) : (j.desk i m.role).ErrorsByLoop m := by
  have hfaithful := Journal.faithful ids i m.role
  induction h with
  | start j hdeeds =>
    intro n' holder w hmem
    rw [Journal.desk, hdeeds] at hmem
    cases hmem
  | round answer _ hanswer ih =>
    have hdrain := drainCommands_tries hfaithful (fun _ f hd => hd.mapQueue f)
      (fun _ _ _ hd ht => hd.tried ht) ih
    exact (runOnce_polls hfaithful (dispatch_sends hanswer)
      (Desk.polls_errorsByLoop m) hdrain).after
  | enqueue c _ ih =>
    exact (enqueue_queues hfaithful (fun _ f hd => hd.mapQueue f) c ih).after
  | operate x _ hx ih =>
    exact ((Synchronous.served hfaithful hx).mono fun _ _ hu => ih.served hu).after
  | elsewhere j' _ _ hdeeds _ ih => exact ih.of_deeds hdeeds

variable {id : String} {count : UInt64}

/-- How a version fares whose messages all fail, when `limit` of them may be sent. Attempts belong
to a version, so they start again if another writer replaces it. -/
structure FailsAfter (m : Manager) (limit : Nat) (sends : List Sending)
    (successors : List (String × Negotiation)) (record : Option Negotiation) : Prop where
  bounded : sends.length ≤ limit
  error : (∃ holder w, (holder, w) ∈ successors ∧ w.state = .error) ↔ sends.length = limit
  kept : ∀ s ∈ sends, sends.length < limit → (∀ w, (m.leaseHolder, w) ∉ successors) ∧
    (successors = [] → record = some s.version)

theorem givenUp_iff {b : Backoff} {sends : List Sending} (hfailed : ∀ s ∈ sends, s.Failed)
    (hbounded : sends.length ≤ b.limit) : GivenUp b sends ↔ sends.length = b.limit := by
  have hpos := b.limit_pos
  constructor
  · rintro (⟨s, hs, hfatal⟩ | ⟨s, hs, -⟩)
    · exact absurd hfatal (hfailed s hs).not_fatal
    · have hlt := (List.getElem?_eq_some_iff.mp hs).1
      omega
  · intro hlength
    have hlt : b.limit - 1 < sends.length := by omega
    exact .inr ⟨_, List.getElem?_eq_getElem hlt, hfailed _ (List.getElem_mem hlt)⟩

theorem Alone.failsAfter (hm : m.leaseHolder ≠ "") (h : m.Alone ids i j) (hcount : count ≠ 0)
    (hfailed : ∀ s ∈ sendings id count j.deeds, s.Failed) :
    FailsAfter m m.options.backoff.limit (sendings id count j.deeds) (successors id count j.deeds)
      ((j.site i).store.find? id) where
  bounded := (((h.sound hm).files id).versions count hcount).bounded
  error := by
    have hversion : Version m (sendings id count j.deeds) (successors id count j.deeds) :=
      ((h.sound hm).files id).versions count hcount
    rw [← givenUp_iff hfailed hversion.bounded, ← hversion.failed]
    constructor
    · rintro ⟨holder, w, hmem, herror⟩
      obtain ⟨v, hsaved, -, hv⟩ := mem_successors.mp hmem
      obtain rfl := h.errorsByLoop v holder w hsaved (hv ▸ hcount) herror
      exact ⟨w, hmem, herror⟩
    · rintro ⟨w, hmem, herror⟩
      exact ⟨_, w, hmem, herror⟩
  kept s hs hfew := by
    have hfile := (h.sound hm).files id
    constructor
    · have hne := List.ne_nil_of_mem hs
      exact (hfile.versions count hcount).patient _ (List.getLast?_eq_some_getLast hne)
        (hfailed _ (List.getLast_mem hne)) hfew
    · intro hnone
      exact (m.own_eq_some.mp (hfile.stored hcount hs hnone)).1

end Manager

namespace Docket

variable {m : Manager} {enqueued : List Command} {line : List Nat} {tries : List Try} {k : Nat}

theorem Line.mem_iff_of_losesRace (h : Line m enqueued line tries) (hk : k < enqueued.length)
    (hl : ∀ t ∈ tries, t.ticket = k → t.before.losesRace m (enqueued.getD k default) = true) :
    k ∈ line ↔ (tryCount tries k : Int) < max 1 m.options.commandMaxAttempts := by
  constructor
  · intro hmem
    rcases h.permitted k hmem with hnone | hfew
    · omega
    · omega
  · intro hfew
    refine (h.waiting k).mpr ⟨hk, fun t ht he => ?_⟩
    obtain ⟨before, after, rfl⟩ := List.append_of_mem ht
    have hbefore : tryCount before k + 1 ≤ tryCount (before ++ t :: after) k := by
      simp [tryCount, he]
    subst he
    -- Tries are left at this one, since it was not the last that is permitted in all.
    have hrequeued := (h.fates before t after rfl).requeues (hl t ht rfl)
      (by simp only [queued]; omega)
    simp [Try.requeued, hrequeued]

end Docket

namespace Manager

variable {σ : Type} {m : Manager} {env : Environment σ} {desk : σ → Desk}

theorem tickets_tries {tickets : List Nat} {batch : List QueuedCommand} {s : σ}
    (h : tickets.length = batch.length) :
    (m.tries env desk tickets batch s).map Try.ticket = tickets := by
  induction tickets generalizing batch s with
  | nil => rfl
  | cons k tickets ih =>
    cases batch with
    | nil => cases h
    | cons c batch => rw [Manager.tries, List.map_cons, ih (Nat.succ.inj h)]

theorem Runs.tries_docketAfter {s : σ} {d : Docket} (h : env.Faithful m.role desk)
    (hr : m.Runs env desk s d) : (m.docketAfter env desk d s).tries.map Try.ticket =
      d.tries.map Try.ticket ++ d.waiting.take m.options.commandBatchSize := by
  have hlength : (d.waiting.take m.options.commandBatchSize).length =
      ((desk s).waiting.take m.options.commandBatchSize).length := by
    rw [(hr.kept h).2, ← List.map_take, List.length_map]
  simp only [docketAfter, Docket.tries, List.flatten_append, List.map_append, List.flatten_cons,
    List.flatten_nil, List.append_nil, tickets_tries hlength]

structure WithinLimits (m : Manager) (messages tries batch : Nat) : Prop where
  failsAfter {n : Nat} {ids : Nat → String} {i : Fin n} {j : Journal n} {id : String}
      {count : UInt64} :
    m.Alone ids i j → count ≠ 0 → (∀ s ∈ sendings id count j.deeds, s.Failed) →
      FailsAfter m messages (sendings id count j.deeds) (successors id count j.deeds)
        ((j.site i).store.find? id)
  round {n : Nat} {ids : Nat → String} {i : Fin n} {j : Journal n} {d : Docket} :
    m.Runs (Journal.environment ids i) (Journal.desk i m.role) j d →
      (m.docketAfter (Journal.environment ids i) (Journal.desk i m.role) d j).tries.map Try.ticket =
        d.tries.map Try.ticket ++ d.waiting.take batch
  loses {n : Nat} {ids : Nat → String} {i : Fin n} {j : Journal n} {d : Docket} {k : Nat} :
    m.Runs (Journal.environment ids i) (Journal.desk i m.role) j d → k < d.enqueued.length →
      (∀ t ∈ d.tries, t.ticket = k → t.before.losesRace m (d.enqueued.getD k default) = true) →
      Docket.tryCount d.tries k ≤ tries ∧ (k ∈ d.waiting ↔ Docket.tryCount d.tries k < tries)

theorem withinLimits_options (hm : m.leaseHolder ≠ "") :
    m.WithinLimits m.options.backoff.limit (max 1 m.options.commandMaxAttempts).toNat
      m.options.commandBatchSize where
  failsAfter h hcount hfailed := h.failsAfter hm hcount hfailed
  round h := h.tries_docketAfter (Journal.faithful _ _ m.role)
  loses {_ _ _ _ _ k} h hk hl := by
    have hline := (h.kept (Journal.faithful _ _ m.role)).1
    have hbounded := hline.bounded k
    rw [hline.mem_iff_of_losesRace hk hl]
    omega

end Manager

end ContractNegotiation
