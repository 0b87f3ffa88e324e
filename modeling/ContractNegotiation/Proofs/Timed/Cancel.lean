import ContractNegotiation.Proofs.Timed.Precedence

namespace ContractNegotiation

open ContractNegotiation.Action Negotiation

namespace Timed

variable {n : Nat} {m : Manager} {clock : Nat → Instant} {ids : Nat → String} {i : Fin n}
  {s t u : Timed n} {c : QueuedCommand} {ahead behind : List QueuedCommand} {id : String}
  {v : Negotiation}

theorem call_yields {α : Type} {block : Action (Timed n) α} {R : α → Timed n → Prop}
    (route : Route) (id : String) (h : Yields block s R) :
    Yields (Service.call (environment clock ids i) route id block) s R := by
  apply h.attempt.bind
  rintro _ t ⟨a, rfl, ht⟩
  exact yields_pure.mpr ht

structure CancelAnswered (i : Fin n) (id : String) (s : Timed n)
    (answer : Except Refusal Negotiation) (t : Timed n) : Prop where
  accepted : ∀ now agreementId, (∃ v, answer = .ok v) ↔ ∃ v next message,
    (s.site i).store.find? id = some v ∧
      v.transition .cancel now agreementId = .applied next message
  queued : ∀ v, answer = .ok v → (s.site i).store.find? id = some v ∧
    t.site i = (s.site i).update .consumer (·.mapQueue (·.enqueue (.cancel id)))
  refused : ∀ refusal, answer = .error refusal → t.site i = s.site i ∧
    refusal.reason ∈ [.notFound, .conflict]
  others : ∀ j, j ≠ i → t.site j = s.site j

theorem cancelRefusal?_eq_none_iff {now : Instant} {agreementId : String} :
    Service.cancelRefusal? v = none ↔
      ∃ next message, v.transition .cancel now agreementId = .applied next message := by
  unfold Service.cancelRefusal?
  by_cases hr : v.role = some .consumer <;> by_cases hs : v.state.isBeforeAgreed = true <;>
    simp [transition, hr, hs]

theorem reason_of_cancelRefusal? {refusal : Refusal} (h : Service.cancelRefusal? v = some refusal) :
    refusal.reason = .conflict := by
  unfold Service.cancelRefusal? at h
  split at h
  · cases h
    rfl
  · split at h
    · cases h
      rfl
    · cases h

theorem cancel_answers (c : Connector) (hc : c.Typed) (id : String) (s : Timed n) :
    Yields (Service.cancel c (environment clock ids i) id) s fun answer t =>
      CancelAnswered i id s answer t := by
  apply call_yields
  have hfind : Yields ((environment clock ids i).find id) s fun found t =>
      found = (s.site i).store.find? id ∧ t = s := ⟨_, _, rfl, rfl, rfl⟩
  apply hfind.bind
  rintro found t ⟨hfound, rfl⟩
  cases found with
  | none =>
    refine yields_pure.mpr ⟨fun now agreementId => ?_, by simp, fun _ hr => ?_, fun _ _ => rfl⟩
    · simp [← hfound]
    · cases hr
      exact ⟨rfl, by simp [Refusal.reason]⟩
  | some v =>
    dsimp only
    split
    · rename_i refusal hrefusal
      refine yields_pure.mpr ⟨fun now agreementId => ?_, by simp, fun _ hr => ?_, fun _ _ => rfl⟩
      · have hnone : _ ↔ ∃ next message, v.transition .cancel now agreementId =
            .applied next message := cancelRefusal?_eq_none_iff
        rw [hrefusal] at hnone
        simpa [← hfound] using hnone
      · cases hr
        exact ⟨rfl, by simp [reason_of_cancelRefusal? hrefusal]⟩
    · rename_i hnone
      have hqueue : Yields (c.consumer.enqueue (environment clock ids i) (.cancel id)) t fun _ u =>
          u.site i = (t.site i).update .consumer (·.mapQueue (·.enqueue (.cancel id))) ∧
            ∀ j, j ≠ i → u.site j = t.site j := by
        rw [← hc.consumer]
        refine ⟨_, _, rfl, ?_, fun j hj => ?_⟩
        · exact (Network.site_setSite _ i i _).trans (if_pos rfl)
        · exact (Network.site_setSite _ i j _).trans (if_neg hj)
      apply hqueue.bind
      rintro _ u ⟨hsite, hothers⟩
      refine yields_pure.mpr ⟨fun now agreementId => ?_, fun w hw => ?_, by simp, hothers⟩
      · obtain ⟨next, message, ht⟩ := cancelRefusal?_eq_none_iff.mp hnone
        exact ⟨fun _ => ⟨v, next, message, hfound.symm, ht⟩, fun _ => ⟨v, rfl⟩⟩
      · cases hw
        exact ⟨hfound.symm, hsite⟩

theorem CancelAnswered.accepts {answer : Except Refusal Negotiation}
    (h : CancelAnswered i id s answer t) (hv : (s.site i).store.find? id = some v)
    (hr : v.role = some .consumer) (hs : v.state.isBeforeAgreed = true) :
    answer = .ok v ∧
      t.site i = (s.site i).update .consumer (·.mapQueue (·.enqueue (.cancel id))) := by
  have happlied : v.transition .cancel default "" = .applied (v.enter .cancelled default) none := by
    simp [transition, hr, hs]
  obtain ⟨w, rfl⟩ := (h.accepted default "").mpr ⟨v, _, _, hv, happlied⟩
  obtain ⟨hw, hsite⟩ := h.queued w rfl
  cases hv.symm.trans hw
  exact ⟨rfl, hsite⟩

theorem applyCommand_cancels (hcommand : c.command = .cancel v.id)
    (hrole : m.role = .consumer) (hr : v.role = some .consumer) (hs : v.state.isBeforeAgreed = true)
    (hg : (s.site i).store.Grants v "") :
    Yields (m.applyCommand (environment clock ids i) c) s fun _ t =>
      ∃ w, (t.site i).store.find? v.id = some w ∧ w.state.isTerminal = true ∧
        v.Follows .cancel "" "" w ∧ w.state = .cancelled := by
  apply (applyCommand_obeys m c s).mono
  rintro _ t ⟨asked, saved, ht⟩
  have happlied : v.transition c.command.event asked "" =
      .applied (v.enter .cancelled asked) none := by
    simp [hcommand, Command.event, transition, hr, hs]
  have htarget : c.command.target = v.id := by rw [hcommand, Command.target]
  rw [Site.obey_granted htarget (by rw [hr, hrole]) hg happlied] at ht
  rw [hcommand, Command.event] at happlied
  have hstate : (v.successor (v.enter .cancelled asked) "").state = .cancelled := by
    rw [state_successor, state_enter]
  refine ⟨_, ?_, ?_, ⟨_, _, _, happlied, rfl⟩, hstate⟩
  · rw [ht, Site.store_moveOn, Store.find?_replace, if_pos]
    · rw [hg.stored]
      rfl
    · exact ((row_of_transition happlied).continues.id_successor "").symm
  · rw [hstate]
    rfl

end Timed

namespace Chronicle

variable {n : Nat} {m : Manager} {clock : Nat → Instant} {ids : Nat → String} {i : Fin n}
  {dispatch : Transport (Timed n)} {s : Timed n} {c : QueuedCommand}
  {ahead behind : List QueuedCommand} {v : Negotiation}

theorem runOnce_cancels (hids : ∀ k, ids k ≠ "") (hback : Timed.NoCallback i dispatch)
    (hclear : (s.site i).store.Clear m)
    (hunleased : ∀ key, (s.site i).store.leases.get? key = none)
    (hbatch : Timed.drained m i s = ahead ++ c :: behind) (hcommand : c.command = .cancel v.id)
    (hrole : m.role = .consumer) (hr : v.role = some .consumer) (hs : v.state.isBeforeAgreed = true)
    (hcount : v.stateCount ≠ 0)
    (hkept : (((m.drainAhead (Timed.environment clock ids i) ahead).after s).site i).store.find?
      v.id = some v) :
    Yields (m.runOnce (environment clock ids i) (send dispatch)) { timed := s } fun _ t =>
      (∃ w, (t.site i).store.find? v.id = some w ∧ v.Follows .cancel "" "" w ∧
        w.state = .cancelled) ∧ ∀ message ∈ t.sent, message.processId ≠ v.id := by
  have hleases : (((m.drainAhead (Timed.environment clock ids i) ahead).after s).site
      i).store.leases = (s.site i).store.leases := (Timed.drainAhead_leases m ahead s).after
  have hevolves : (s.site i).store.Evolves
      (((m.drainAhead (Timed.environment clock ids i) ahead).after s).site i).store :=
    (Timed.drainAhead_evolves hids hclear.tidy ahead).after
  have hid : v.id ≠ "" := by
    intro hid
    rw [hid, hevolves.named hclear.named] at hkept
    cases hkept
  have hgrants : (((m.drainAhead (Timed.environment clock ids i) ahead).after s).site
      i).store.Grants v "" := by
    refine ⟨hid, hcount, hkept, fun lease hl => ?_⟩
    rw [hleases, hunleased] at hl
    cases hl
  have hcancel : Yields (m.drainCommands (Timed.environment clock ids i)) s fun _ t =>
      ∃ w, (t.site i).store.find? v.id = some w ∧ w.state.isTerminal = true ∧
        v.Follows .cancel "" "" w ∧ w.state = .cancelled :=
    Timed.drainCommands_through hbatch
      (Timed.applyCommand_cancels hcommand hrole hr hs hgrants)
  apply (runOnce_spares hids hback hclear hcancel).mono
  rintro _ t ⟨⟨w, hw, hstop, hfollows, hstate⟩, -, hspares⟩
  -- a record at its end is none that the loop polls
  have hleaves := hspares.leaves v.id <| .inr fun x hx => by
    cases hw.symm.trans hx
    rw [hstate]
    cases m.role <;> decide
  exact ⟨⟨w, hleaves.record.trans hw, hfollows, hstate⟩, hleaves.silent⟩

def reached (m : Manager) (clock : Nat → Instant) (ids : Nat → String) (i : Fin n)
    (ahead : List QueuedCommand) (s : Timed n) : Timed n :=
  (m.drainAhead (Timed.environment clock ids i) ahead).after s

/-- What a round from `s` makes of a cancellation that it takes behind the commands `ahead`, if the
service has given this answer to it: it cancels the record that the service has seen, and no record
that has been agreed upon. The record must have a version left. -/
structure CancelTried (m : Manager) (clock : Nat → Instant) (ids : Nat → String) (i : Fin n)
    (id : String) (answer : Except Refusal Negotiation) (ahead : List QueuedCommand)
    (c : QueuedCommand) (s : Timed n) : Prop where
  unwritten : ∀ v, answer = .ok v → v.stateCount ≠ 0 →
    ((reached m clock ids i ahead s).site i).store.find? id = some v →
    ∀ dispatch, Timed.NoCallback i dispatch →
      Yields (m.runOnce (environment clock ids i) (send dispatch)) { timed := s } fun _ t =>
        (∃ w, (t.site i).store.find? id = some w ∧ v.Follows .cancel "" "" w ∧
          w.state = .cancelled) ∧ ∀ message ∈ t.sent, message.processId ≠ id
  written : Yields (m.applyCommand (Timed.environment clock ids i) c)
    (reached m clock ids i ahead s) fun _ t =>
      t.site i = (reached m clock ids i ahead s).site i ∨
        ∃ w, ((reached m clock ids i ahead s).site i).store.find? id = some w ∧
          w.role = some .consumer ∧ w.state.isTerminal = false ∧ w.agreement = none

theorem unbound_of_cancel {now : Instant} {agreementId : String} {next : Negotiation}
    {message : Option RemoteMessage} (hw : v.WellFormed) (hr : v.role = some .consumer)
    (ht : v.transition .cancel now agreementId = .applied next message) :
    v.state.isTerminal = false ∧ v.agreement = none := by
  have hrow := row_of_transition ht
  refine ⟨hrow.isTerminal, hw.unbound (hw.mem_unbound hr ?_)⟩
  cases hrow with
  | cancel _ hs => exact hs

theorem applyCommand_unbound (hrole : m.role = .consumer) {id : String}
    (hcommand : c.command = .cancel id) (hw : ∀ v ∈ (s.site i).store.records, v.WellFormed) :
    Yields (m.applyCommand (Timed.environment clock ids i) c) s fun _ t =>
      t.site i = s.site i ∨ ∃ w, (s.site i).store.find? id = some w ∧
        w.role = some .consumer ∧ w.state.isTerminal = false ∧ w.agreement = none := by
  apply (Timed.applyCommand_obeys m c s).mono
  rintro _ t ⟨asked, saved, ht⟩
  have hobeys : (s.site i).Obeys m c asked (t.site i) := ht ▸ Site.obeys_obey ..
  have hevent : c.command.event = .cancel := by rw [hcommand, Command.event]
  have htarget : c.command.target = id := by rw [hcommand, Command.target]
  have applied {v next : Negotiation} {message : Option RemoteMessage}
      (hv : (s.site i).store.find? c.command.target = some v) (hr : v.role = some m.role)
      (ha : v.transition c.command.event asked "" = .applied next message) :
      ∃ w, (s.site i).store.find? id = some w ∧ w.role = some .consumer ∧
        w.state.isTerminal = false ∧ w.agreement = none := by
    rw [hevent] at ha
    rw [htarget] at hv
    rw [hrole] at hr
    exact ⟨v, hv, hr, unbound_of_cancel (hw v (Store.mem_of_find? hv)) hr ha⟩
  generalize t.site i = after at hobeys
  cases hobeys with
  | idle => exact .inl rfl
  | written v _ _ _ _ hv hr ha _ => exact .inr (applied hv hr ha)
  | requeued v _ _ hv hr ha => exact .inr (applied hv hr ha)

variable {connectors : Vector Connector n} {draws : Nat → Identifier} {s₀ : Timed n}

/-- Whatever happens between a request to cancel a record and the round that takes it from the
queue. -/
theorem cancel_judged (hc : (connectors.get i).Typed)
    (hstart : (s₀.site i).store.records = [])
    (hunleased : ∀ key, (s₀.site i).store.leases.get? key = none)
    (hruns : Timed.Runs (.drawing connectors draws) i s₀ s) (clock : Nat → Instant) (id : String) :
    Yields (Service.cancel (connectors.get i)
        (Timed.environment clock (Roster.drawing connectors draws).ids i) id) s fun answer t =>
      Timed.CancelAnswered i id s answer t ∧
        ∀ u, Timed.Runs (.drawing connectors draws) i t u → ∀ clock ahead c behind,
          Timed.drained (connectors.get i).consumer i u = ahead ++ c :: behind →
          c.command = .cancel id →
          CancelTried (connectors.get i).consumer clock (Roster.drawing connectors draws).ids i id
            answer ahead c u := by
  have hids (k : Nat) : (draws k).text ≠ "" := (draws k).text_ne_empty
  apply ((Timed.cancel_answers _ hc id s).andEnds ends_after).mono
  rintro answer t ⟨hanswer, rfl⟩
  refine ⟨hanswer, fun u hruns' clock' ahead c behind hbatch hcommand => ?_⟩
  have hlater := (hruns.call clock (.cancel id s)).trans hruns'
  have hfree (key : String) : (u.site i).store.leases.get? key = none := by
    cases hl : (u.site i).store.leases.get? key with
    | none => rfl
    | some lease =>
      have hold := hlater.frees.leases key lease hl
      rw [hunleased] at hold
      cases hold
  have htidy := Store.tidy_of_records hstart
  have hevolves := hlater.evolves hc htidy
  have hahead : (u.site i).store.Evolves ((reached (connectors.get i).consumer clock'
      (Roster.drawing connectors draws).ids i ahead u).site i).store :=
    (Timed.drainAhead_evolves hids (hevolves.tidy htidy) ahead).after
  constructor
  · rintro v rfl hcount hkept dispatch hback
    obtain ⟨w, next, message, hw, ht⟩ := (hanswer.accepted default "").mp ⟨v, rfl⟩
    obtain ⟨hv, -⟩ := hanswer.queued v rfl
    cases hv.symm.trans hw
    have hrow := row_of_transition ht
    obtain rfl := Store.id_of_find? hv
    have hclear : (u.site i).store.Clear (connectors.get i).consumer :=
      hlater.clear hc hstart fun key lease hl => by
        rw [hunleased] at hl
        cases hl
    cases hrow with
    | cancel hr hs =>
      exact runOnce_cancels hids hback hclear hfree hbatch hcommand hc.consumer hr hs hcount hkept
  · apply applyCommand_unbound hc.consumer hcommand
    exact hahead.wellFormed (hevolves.wellFormed (by simp [hstart]))

theorem lone_request {s : Timed 1} {id : String} {count : UInt64}
    (h : (s.site 0).store.records.map (fun v => (v.id, v.role, v.state, v.stateCount)) =
      [(id, some .consumer, .requesting, count)]) :
    ∃ v, (s.site 0).store.records = [v] ∧ (s.site 0).store.find? id = some v ∧
      v.role = some .consumer ∧ v.state.isBeforeAgreed = true ∧ v.stateCount = count := by
  obtain ⟨v, hrecords⟩ : ∃ v, (s.site 0).store.records = [v] := by
    rw [← List.length_eq_one_iff]
    simpa using congrArg List.length h
  simp only [hrecords, List.map_cons, List.map_nil, List.cons.injEq, and_true, Prod.mk.injEq] at h
  obtain ⟨hid, hr, hs, hcount⟩ := h
  refine ⟨v, hrecords, by simp [Store.find?, hrecords, hid], hr, ?_, hcount⟩
  rw [hs]
  rfl

def still (_ : Nat) : Instant := default

def busy : Transport (Timed 1) := fun _ => pure (.transient "busy")

def stalled : Timed 1 :=
  ((Network.loneConnector.manager .consumer).runOnce
    (Timed.environment still Network.loneRoster.ids (Fin.last 0)) busy).after Timed.asked

theorem runs_stalled : Timed.Runs Network.loneRoster 0 { network := Network.vacant } stalled :=
  ((Timed.Runs.done _).call Timed.leaping (.initiate _ _)).round .consumer still busy
    fun _ u => .done u

theorem cancel_judged_of_stalled : ∃ v,
    (stalled.site 0).store.find? (Network.loneRoster.ids 0) = some v ∧
    (stalled.site 0).consumer.retries.isDue v.id (still 0) = false ∧
    Yields (Service.cancel Network.loneConnector
        (Timed.environment still Network.loneRoster.ids 0) (Network.loneRoster.ids 0)) stalled
      fun answer t => answer = .ok v ∧
        Yields (Network.loneConnector.consumer.runOnce (environment still Network.loneRoster.ids 0)
          (send busy)) { timed := t } fun _ final =>
            (∃ w, (final.site 0).store.find? (Network.loneRoster.ids 0) = some w ∧
              v.Follows .cancel "" "" w ∧ w.state = .cancelled) ∧
            ∀ message ∈ final.sent, message.processId ≠ Network.loneRoster.ids 0 := by
  have hfields : (stalled.site 0).store.records.map
      (fun v => (v.id, v.role, v.state, v.stateCount)) =
        [(Network.loneRoster.ids 0, some .consumer, .requesting, 1)] := by decide +kernel
  obtain ⟨v, hrecords, hv, hr, hs, hcount⟩ := lone_request hfields
  have hwaits : ∀ v ∈ (stalled.site 0).store.records,
      (stalled.site 0).consumer.retries.isDue v.id (still 0) = false := by decide +kernel
  have hqueue : (stalled.site 0).consumer.queue.waiting = [] := by decide +kernel
  refine ⟨v, hv, hwaits v (by simp [hrecords]), ?_⟩
  have hleases (key : String) :
      (({ network := Network.vacant } : Timed 1).site 0).store.leases.get? key = none := rfl
  apply (cancel_judged Network.lone_typed rfl hleases runs_stalled still
    (Network.loneRoster.ids 0)).mono
  rintro answer t ⟨hanswer, htried⟩
  obtain ⟨rfl, hsite⟩ := hanswer.accepts hv hr hs
  refine ⟨rfl, ?_⟩
  have hbatch : Timed.drained Network.loneConnector.consumer 0 t =
      [] ++ ⟨.cancel (Network.loneRoster.ids 0), 0⟩ :: [] := by
    have hwaiting : (t.site 0).consumer.queue.waiting =
        [⟨.cancel (Network.loneRoster.ids 0), 0⟩] := by
      rw [hsite]
      change (stalled.site 0).consumer.queue.waiting ++ _ = _
      rw [hqueue]
      rfl
    change (t.site 0).consumer.queue.waiting.take 5 = _
    rw [hwaiting]
    rfl
  have hkept : ((reached Network.loneConnector.consumer still Network.loneRoster.ids 0 [] t).site
      0).store.find? (Network.loneRoster.ids 0) = some v := by
    have htaken : Yields (Network.loneConnector.consumer.drainAhead
        (Timed.environment still Network.loneRoster.ids 0) []) t fun _ u =>
          (u.site 0).store = (stalled.site 0).store := by
      apply (Timed.takeCommands_yields _ t).bind
      rintro _ u ⟨-, hu⟩
      refine yields_pure.mpr ?_
      rw [hu, Site.store_update, hsite, Site.store_update]
    rw [reached, htaken.after, hv]
  exact (htried t (.done t) still [] _ [] hbatch rfl).unwritten v rfl (by rw [hcount]; decide) hkept
    busy fun _ _ => rfl

def retired : Timed 1 :=
  (Service.decline Network.loneConnector
    (Timed.environment Timed.leaping Network.loneRoster.ids (Fin.last 0))
    (Network.loneRoster.ids 0) "late").after Timed.asked

def overtaken : Timed 1 :=
  (Service.cancel Network.loneConnector
    (Timed.environment Timed.leaping Network.loneRoster.ids (Fin.last 0))
    (Network.loneRoster.ids 0)).after retired

/-- Commands are tried in the order in which they have come. A decline ahead of the cancellation in
the same batch ends the negotiation, and the counter-party is told. -/
theorem cancel_overtaken :
    Timed.Runs Network.loneRoster 0 { network := Network.vacant } retired ∧
    (Yields (Service.cancel Network.loneConnector
      (Timed.environment Timed.leaping Network.loneRoster.ids 0) (Network.loneRoster.ids 0)) retired
        fun answer t => t = overtaken ∧ ∃ v, answer = .ok v ∧
          (overtaken.site 0).store.find? (Network.loneRoster.ids 0) = some v) ∧
    (Timed.drained Network.loneConnector.consumer 0 overtaken).map QueuedCommand.command =
      [.decline (Network.loneRoster.ids 0) "late", .cancel (Network.loneRoster.ids 0)] ∧
    (((Network.loneConnector.consumer.runOnce (environment Timed.leaping Network.loneRoster.ids 0)
      (send fun _ => pure (.ok "peer"))).after { timed := overtaken }).site
        0).store.records.map Negotiation.state = [.terminated] ∧
    ((Network.loneConnector.consumer.runOnce (environment Timed.leaping Network.loneRoster.ids 0)
      (send fun _ => pure (.ok "peer"))).after { timed := overtaken }).sent.map
        RemoteMessage.processId = [Network.loneRoster.ids 0] := by
  have hfields : (retired.site 0).store.records.map
      (fun v => (v.id, v.role, v.state, v.stateCount)) =
        [(Network.loneRoster.ids 0, some .consumer, .requesting, 1)] := by decide +kernel
  have hruns : Timed.Runs Network.loneRoster 0 { network := Network.vacant } retired :=
    ((Timed.Runs.done _).call Timed.leaping (.initiate _ _)).call Timed.leaping (.decline _ _ _)
  refine ⟨hruns, ?_, by decide +kernel, by decide +kernel, by decide +kernel⟩
  obtain ⟨v, -, hv, hr, hs, -⟩ := lone_request hfields
  apply ((Timed.cancel_answers _ Network.lone_typed _ retired).andEnds ends_after).mono
  rintro answer t ⟨hanswer, ht⟩
  obtain ⟨rfl, hsite⟩ := hanswer.accepts hv hr hs
  have hovertaken : t = overtaken := ht
  refine ⟨hovertaken, v, rfl, ?_⟩
  rw [← hovertaken, hsite, Site.store_update, hv]

end Chronicle

end ContractNegotiation
