import ContractNegotiation.Proofs.Network.Delivery
import ContractNegotiation.Proofs.Timed.Turn

namespace ContractNegotiation

open ContractNegotiation.Action Negotiation

namespace Manager

structure Turn (σ : Type) where
  record : Negotiation
  before : σ
  after : σ

structure Poll (σ : Type) extends Batch where
  state : State
  before : σ
  turns : List (Turn σ)
  after : σ

variable {σ : Type} (m : Manager) (env : Environment σ) (send : Transport σ)

def turns : List Negotiation → σ → List (Turn σ)
  | [], _ => []
  | v :: vs, s => ⟨v, s, (m.processLeased env send v).after s⟩ ::
      turns vs ((m.processLeased env send v).after s)

def poll (state : State) (s : σ) : Poll σ :=
  let batch := (m.sift env state).answer s
  { batch with
    state
    before := s
    turns := m.turns env send (m.order batch.due) ((m.sift env state).after s)
    after := (m.processState env send state).after s }

def polls : List State → σ → List (Poll σ)
  | [], _ => []
  | state :: states, s => m.poll env send state s ::
      polls states ((m.processState env send state).after s)

def round (s : σ) : List (Poll σ) :=
  m.polls env send (State.processable m.role) ((m.drainCommands env).after s)

end Manager

namespace Store

variable {s t : Store}

structure Amends (s : Store) (id : String) (t : Store) : Prop where
  others : ∀ other, other ≠ id → t.find? other = s.find? other
  leases : t.leases = s.leases

theorem Amends.refl (s : Store) (id : String) : s.Amends id s := ⟨fun _ _ => rfl, rfl⟩

end Store

theorem Site.Obeys.amends {s t : Site} {m : Manager} {c : QueuedCommand} {asked : Instant}
    (h : s.Obeys m c asked t) : s.store.Amends c.command.target t.store := by
  cases h with
  | idle => exact .refl ..
  | written v next w message store hv _ ht hsaved =>
    have hw : w.id = c.command.target :=
      (hsaved.id.trans (row_of_transition ht).continues.id).trans (Store.id_of_find? hv)
    rw [store_wake, store_record]
    refine ⟨fun id hne => ?_, hsaved.leases⟩
    rw [hsaved.find?, hw, if_neg hne]
  | requeued =>
    rw [store_update]
    exact .refl ..

namespace Timed

variable {n : Nat} {m : Manager} {clock : Nat → Instant} {ids : Nat → String} {i : Fin n}
  {send : Transport (Timed n)} {s t u : Timed n} {v : Negotiation}

structure Settled (m : Manager) (clock : Nat → Instant) (ids : Nat → String) (i : Fin n)
    (send : Transport (Timed n)) (turn : Manager.Turn (Timed n)) : Prop where
  stored : (turn.before.site i).store.find? turn.record.id = some turn.record
  settles : ∃ verdict, Verdict m clock ids i send turn.before turn.record verdict ∧
    (turn.before.site i).store.Settles turn.record verdict (turn.after.site i).store

structure Orderly (m : Manager) (clock : Nat → Instant) (ids : Nat → String) (i : Fin n)
    (send : Transport (Timed n)) (p : Manager.Poll (Timed n)) : Prop where
  state : p.state ∈ State.processable m.role
  leased : ∀ v ∈ p.leased, (p.before.site i).store.Offers m p.state v
  due : p.due = p.leased.filter ((p.before.site i).isFree m.role p.now)
  turns : (p.turns.map Manager.Turn.record).Perm p.due
  settled : ∀ turn ∈ p.turns, Settled m clock ids i send turn
  last : ∀ turn, p.turns.getLast? = some turn → p.after = turn.after
  others : ∀ id, (∀ turn ∈ p.turns, turn.record.id ≠ id) →
    (p.after.site i).store.find? id = (p.before.site i).store.find? id

def drained (m : Manager) (i : Fin n) (s : Timed n) : List QueuedCommand :=
  ((s.site i).workload m.role).queue.waiting.take m.options.commandBatchSize

/-- What a round from `s` to `t` has left: no lease of the manager, orderly polls, and no change but
to what a command has named or to what was due in a poll. -/
structure Clean (m : Manager) (clock : Nat → Instant) (ids : Nat → String) (i : Fin n)
    (send : Transport (Timed n)) (s t : Timed n) : Prop where
  unleased : ∀ id lease, (t.site i).store.leases.get? id = some lease →
    lease.holder ≠ m.leaseHolder
  polls : ∀ p ∈ m.round (environment clock ids i) send s, Orderly m clock ids i send p
  last : ∀ p, (m.round (environment clock ids i) send s).getLast? = some p → p.after = t
  owned : ∀ id, (t.site i).store.find? id ≠ (s.site i).store.find? id →
    (∃ c ∈ drained m i s, c.command.target = id) ∨
      ∃ p ∈ m.round (environment clock ids i) send s, ∃ v ∈ p.due, v.id = id

theorem processLeased_answers (m : Manager) (send : Transport (Timed n)) (v : Negotiation)
    (s : Timed n) : Yields (m.processLeased (environment clock ids i) send v) s
      fun _ _ => True :=
  Manager.processLeased_answers
    (fun notice _ => (report_yields (i := i) notice).mono fun _ _ _ => trivial)
    (fun id t => ((situated clock ids i).release_yields m (p := t.page i) rfl id).mono
      fun _ _ _ => trivial) v s

section Poll

variable {vs : List Negotiation}

theorem records_turns (env : Environment (Timed n)) (vs : List Negotiation) (s : Timed n) :
    (m.turns env send vs s).map Manager.Turn.record = vs := by
  induction vs generalizing s with
  | nil => rfl
  | cons v vs ih => rw [Manager.turns, List.map_cons, ih]

theorem turns_settle (hback : NoCallback i send) (h : (s.site i).store.Lending m vs) :
    Yields (each (m.processLeased (environment clock ids i) send) vs) s fun _ t =>
      (t.site i).store.Lending m [] ∧
        (∀ turn ∈ m.turns (environment clock ids i) send vs s,
          Settled m clock ids i send turn) ∧
        ((m.turns (environment clock ids i) send vs s).getLast?.map
          Manager.Turn.after).getD s = t ∧
        ∀ id, (∀ turn ∈ m.turns (environment clock ids i) send vs s, turn.record.id ≠ id) →
          (t.site i).store.find? id = (s.site i).store.find? id := by
  induction vs generalizing s with
  | nil => exact yields_pure.mpr ⟨h, by simp [Manager.turns], rfl, by simp⟩
  | cons v vs ih =>
    have hlends := h.lends v (List.mem_cons_self ..)
    obtain ⟨hturn, verdict, hverdict, hsettles⟩ := Yields.eq_ok
      (x := m.processLeased (environment clock ids i) send v) (processLeased_settles hback hlends)
    obtain ⟨_, u, hx, hlending, hsettled, hlast, hothers⟩ := ih (h.settles hsettles)
    refine ⟨(), u, ?_, hlending, ?_, ?_, ?_⟩
    · simp only [each, Bind.bind, EStateM.bind, hturn, hx]
    · intro turn hmem
      rw [Manager.turns] at hmem
      rcases List.mem_cons.mp hmem with rfl | hmem
      · exact ⟨hlends.stored, verdict, hverdict, hsettles⟩
      · exact hsettled turn hmem
    · rw [Manager.turns, List.getLast?_cons, Option.map_some, Option.getD_some, ← hlast]
      exact (Option.getD_map ..).symm
    · intro id hid
      rw [Manager.turns, List.forall_mem_cons] at hid
      rw [hothers id hid.2, hsettles.find?, if_neg hid.1.symm]

theorem processState_orderly (hback : NoCallback i send) (h : (s.site i).store.Clear m)
    {state : State}
    (hstate : state ∈ State.processable m.role) :
    Yields (m.processState (environment clock ids i) send state) s fun _ t =>
      (t.site i).store.Lending m [] ∧ ∃ b start,
        m.sift (environment clock ids i) state s = .ok b start ∧
        Orderly m clock ids i send { b with
          state
          before := s
          turns := m.turns (environment clock ids i) send (m.order b.due) start
          after := t } := by
  have hsituated := situated clock ids i
  obtain ⟨b, q, t, hb⟩ := hsituated.poll_begun (m := m) (p := s.page i) rfl state
  obtain ⟨start, -, hsift, hsame⟩ := hb.sifted
  have hsite : t.site i = q.site := hb.shown
  have hstart : m.turns (environment clock ids i) send (m.order b.due) start =
      m.turns (environment clock ids i) send (m.order b.due) t := by
    by_cases hleased : b.leased = []
    · have hdue : b.due = [] := by rw [hb.due, hleased, List.filter_nil]
      have hnone : m.order b.due = [] := by
        rw [hdue]
        exact if_pos (.inr (Nat.zero_le 1))
      rw [hnone]
      rfl
    · rw [hsame hleased]
  have hlending : (t.site i).store.Lending m b.due := hsite ▸ hb.lending h hstate
  unfold Yields
  rw [hb.goesOn, Manager.processDue_eq (processLeased_answers m send)]
  apply (turns_settle hback (hlending.perm (m.order_perm b.due))).bind
  rintro _ u ⟨hclear, hsettled, hlast, hothers⟩
  refine yields_pure.mpr ⟨hclear, b, start, hsift, hstate, fun v hv => hb.offers h hstate hv,
    hb.due, ?_, ?_, fun turn hturn => ?_, fun id hid => ?_⟩
  · rw [records_turns]
    exact m.order_perm b.due
  · rwa [hstart]
  · rw [← hlast, ← hstart, hturn]
    rfl
  · rw [hstart] at hid
    rw [hothers id hid, hsite]
    exact hb.find? id

theorem poll_orderly (hback : NoCallback i send) (h : (s.site i).store.Clear m) {state : State}
    (hstate : state ∈ State.processable m.role) :
    Yields (m.processState (environment clock ids i) send state) s fun _ t =>
      (t.site i).store.Lending m [] ∧
        Orderly m clock ids i send (m.poll (environment clock ids i) send state s) := by
  obtain ⟨hx, hlending, b, start, hsift, horderly⟩ := Yields.eq_ok
    (x := m.processState (environment clock ids i) send state)
    (processState_orderly hback h hstate)
  refine ⟨_, _, hx, hlending, ?_⟩
  simpa only [Manager.poll, Action.answer, Action.after, hsift] using horderly

end Poll

section Commands

theorem applyCommand_amends (m : Manager) (c : QueuedCommand) (s : Timed n) :
    Yields (m.applyCommand (environment clock ids i) c) s fun _ t =>
      (s.site i).store.Amends c.command.target (t.site i).store := by
  apply (applyCommand_obeys m c s).mono
  rintro _ t ⟨asked, saved, ht⟩
  rw [ht]
  exact (Site.obeys_obey (s.site i) m c asked saved).amends

theorem takeCommands_yields (m : Manager) (s : Timed n) :
    Yields (m.takeCommands (environment clock ids i)) s fun batch t =>
      batch = drained m i s ∧ t.site i = (s.site i).update m.role
        (·.mapQueue fun q => (q.dequeue m.options.commandBatchSize).2) :=
  (situated clock ids i).takeCommands_yields m (p := s.page i) rfl

theorem drainCommands_keeps {I : Timed n → Prop}
    (htake : Yields (m.takeCommands (environment clock ids i)) s fun _ t => I t)
    (htry : ∀ c ∈ drained m i s, ∀ u, I u →
      Yields (m.applyCommand (environment clock ids i) c) u fun _ u' => I u') :
    Yields (m.drainCommands (environment clock ids i)) s fun _ t => I t := by
  apply (htake.and (takeCommands_yields m s)).bind
  rintro _ t ⟨ht, rfl, -⟩
  have hstep (c : QueuedCommand) (cs : List QueuedCommand) (u : Timed n)
      (hu : (∀ x ∈ c :: cs, x ∈ drained m i s) ∧ I u) :
      Yields (m.applyCommand (environment clock ids i) c) u fun _ u' =>
        (∀ x ∈ cs, x ∈ drained m i s) ∧ I u' := by
    rw [List.forall_mem_cons] at hu
    exact (htry c hu.1.1 u hu.2).mono fun _ _ hu' => ⟨hu.1.2, hu'⟩
  apply (each_yields (fun cs u => (∀ x ∈ cs, x ∈ drained m i s) ∧ I u) hstep
    ⟨fun _ hx => hx, ht⟩).bind
  rintro _ u ⟨-, hu⟩
  exact yields_pure.mpr hu

theorem drainCommands_amends (m : Manager) (s : Timed n) :
    Yields (m.drainCommands (environment clock ids i)) s fun _ t =>
      (t.site i).store.leases = (s.site i).store.leases ∧
        ∀ id, (∀ c ∈ drained m i s, c.command.target ≠ id) →
          (t.site i).store.find? id = (s.site i).store.find? id := by
  apply drainCommands_keeps
  · apply (takeCommands_yields m s).mono
    rintro _ t ⟨-, ht⟩
    rw [ht, Site.store_update]
    exact ⟨rfl, fun _ _ => rfl⟩
  · rintro c hc u ⟨hleases, hfind⟩
    apply (applyCommand_amends m c u).mono
    intro _ u' hu'
    refine ⟨hu'.leases.trans hleases, fun id hid => ?_⟩
    rw [hu'.others id (hid c hc).symm, hfind id hid]

end Commands

section Round

variable (hids : ∀ k, ids k ≠ "") (hback : NoCallback i send)
include hids hback

theorem upholds_evolves (hs : (s.site i).store.Tidy) :
    Manager.Upholds m (environment clock ids i) send fun vs t =>
      (s.site i).store.Evolves (t.site i).store ∧ ∀ v ∈ vs, (t.site i).store.Includes v := by
  have hlaw := environment_lawful clock ids i
  refine (m.evolving hids hlaw hs fun message t _ => ?_).upholds hlaw
  have he : (focus i).store ((send message).after t) = (focus i).store t :=
    congrArg Site.store (hback message t)
  rw [he]

theorem processState_clear (h : (s.site i).store.Clear m) {state : State}
    (hstate : state ∈ State.processable m.role) :
    Yields (m.processState (environment clock ids i) send state) s fun _ t =>
      ((t.site i).store.Clear m ∧ (s.site i).store.Evolves (t.site i).store) ∧
        Orderly m clock ids i send (m.poll (environment clock ids i) send state s) := by
  have hends : Ends (m.processState (environment clock ids i) send state) s _ :=
    (upholds_evolves hids hback h.tidy).processState state ⟨.refl, by simp⟩
  apply ((poll_orderly hback h hstate).andEnds hends).mono
  rintro _ t ⟨⟨hlending, horderly⟩, hevolves, -⟩
  exact ⟨⟨⟨hevolves.tidy h.tidy, hevolves.named h.named, hlending⟩, hevolves⟩, horderly⟩

theorem polls_orderly {states : List State}
    (hstates : ∀ state ∈ states, state ∈ State.processable m.role)
    (h : (s.site i).store.Clear m) :
    Yields (total (m.processState (environment clock ids i) send) states) s fun _ t =>
      (t.site i).store.Clear m ∧
        (∀ p ∈ m.polls (environment clock ids i) send states s,
          Orderly m clock ids i send p) ∧
        ((m.polls (environment clock ids i) send states s).getLast?.map
          Manager.Poll.after).getD s = t ∧
        ∀ id, (∀ p ∈ m.polls (environment clock ids i) send states s, ∀ v ∈ p.due, v.id ≠ id) →
          (t.site i).store.find? id = (s.site i).store.find? id := by
  induction states generalizing s with
  | nil => exact yields_pure.mpr ⟨h, by simp [Manager.polls], rfl, by simp⟩
  | cons state states ih =>
    rw [List.forall_mem_cons] at hstates
    obtain ⟨hx, ⟨hclear, -⟩, horderly⟩ := Yields.eq_ok
      (x := m.processState (environment clock ids i) send state)
      (processState_clear hids hback h hstates.1)
    obtain ⟨k, t, hy, hclear', horderly', hlast, hothers⟩ := ih hstates.2 hclear
    refine ⟨(m.processState (environment clock ids i) send state).answer s + k, t, ?_, hclear', ?_,
      ?_, fun id hid => ?_⟩
    · simp only [total, Bind.bind, EStateM.bind, hx, hy]
      rfl
    · rw [Manager.polls, List.forall_mem_cons]
      exact ⟨horderly, horderly'⟩
    · rw [Manager.polls, List.getLast?_cons, Option.map_some, Option.getD_some, ← hlast]
      exact (Option.getD_map ..).symm
    · rw [Manager.polls, List.forall_mem_cons] at hid
      rw [hothers id hid.2]
      apply horderly.others
      intro turn hturn
      exact hid.1 _ (horderly.turns.mem_iff.mp (List.mem_map_of_mem hturn))

theorem drainCommands_clear (h : (s.site i).store.Clear m) :
    Yields (m.drainCommands (environment clock ids i)) s fun _ t =>
      ((t.site i).store.Clear m ∧ (s.site i).store.Evolves (t.site i).store) ∧
        ∀ id, (∀ c ∈ drained m i s, c.command.target ≠ id) →
          (t.site i).store.find? id = (s.site i).store.find? id := by
  have hends : Ends (m.drainCommands (environment clock ids i)) s _ :=
    (upholds_evolves hids hback h.tidy).drainCommands ⟨.refl, by simp⟩
  apply ((drainCommands_amends m s).andEnds hends).mono
  rintro _ t ⟨⟨hleases, hfind⟩, hevolves, -⟩
  have hlending : (t.site i).store.Lending m [] :=
    ⟨by simp, fun id lease hl => h.lending.only id lease (hleases ▸ hl), .nil⟩
  exact ⟨⟨⟨hevolves.tidy h.tidy, hevolves.named h.named, hlending⟩, hevolves⟩, hfind⟩

theorem runOnce_of_clear (h : (s.site i).store.Clear m) :
    Yields (m.runOnce (environment clock ids i) send) s fun _ t =>
      Clean m clock ids i send s t := by
  apply (drainCommands_clear hids hback h).noted.bind
  rintro commands t ⟨⟨⟨ht, -⟩, hdrained⟩, hdrain⟩
  apply (polls_orderly hids hback (fun _ hstate => hstate) ht).bind
  rintro records u ⟨hu, horderly, hlast, hothers⟩
  have hround : m.round (environment clock ids i) send s =
      m.polls (environment clock ids i) send (State.processable m.role) t := by
    simp only [Manager.round, Action.after, hdrain]
  rw [← hround] at horderly hlast hothers
  refine yields_pure.mpr ⟨fun id lease hl hm => ?_, horderly, fun p hp => ?_, fun id hne => ?_⟩
  · exact absurd (hu.lending.only id lease hl hm) (by simp)
  · rw [← hlast, hp]
    rfl
  · by_contra hnone
    rw [not_or] at hnone
    apply hne
    rw [hothers id fun p hp v hv hid => hnone.2 ⟨p, hp, v, hv, hid⟩]
    exact hdrained id fun c hc hid => hnone.1 ⟨c, hc, hid⟩

end Round

theorem clear_of_runs {connectors : Vector Connector n} {draws : Nat → Identifier} {s₀ : Timed n}
    (hc : (connectors.get i).Typed) (hstart : (s₀.site i).store.records = [])
    (hruns : Runs (.drawing connectors draws) i s₀ s)
    (hfree : ∀ id lease, (s.site i).store.leases.get? id = some lease →
      lease.holder ≠ m.leaseHolder) : (s.site i).store.Clear m := by
  have htidy := Store.tidy_of_records hstart
  have hevolves := hruns.evolves hc htidy
  refine ⟨hevolves.tidy htidy, hevolves.named ?_, by simp,
    fun id lease hl hm => absurd hm (hfree id lease hl), .nil⟩
  simp [Store.find?, hstart]

/-- A round of a manager that holds no lease, whatever its clock shows and whatever its dispatcher
answers or throws. -/
theorem runOnce_clean {connectors : Vector Connector n} {draws : Nat → Identifier} {s₀ : Timed n}
    (hc : (connectors.get i).Typed) (hstart : (s₀.site i).store.records = [])
    (hruns : Runs (.drawing connectors draws) i s₀ s) (m : Manager)
    (hfree : ∀ id lease, (s.site i).store.leases.get? id = some lease →
      lease.holder ≠ m.leaseHolder) (clock : Nat → Instant) (hback : NoCallback i send) :
    Yields (m.runOnce (environment clock (Roster.drawing connectors draws).ids i) send) s
      fun _ t => Clean m clock (Roster.drawing connectors draws).ids i send s t :=
  runOnce_of_clear (fun k => (draws k).text_ne_empty) hback (clear_of_runs hc hstart hruns hfree)

def leaping (k : Nat) : Instant := .ofMillis (90000 * k)

def asked : Timed 1 :=
  (Service.initiate Network.loneConnector
    (environment leaping Network.loneRoster.ids (Fin.last 0))
    { counterPartyAddress := "http://p", offer := some {} }).after { network := Network.vacant }

def refusing : Transport (Timed 1) := fun _ => pure (.fatal "unwanted")

theorem runOnce_clean_of_asked :
    (asked.site 0).store.records.map Negotiation.state = [.requesting] ∧
    (((Network.loneConnector.consumer.runOnce (environment leaping Network.loneRoster.ids 0)
      refusing).after asked).site 0).store.records.map Negotiation.state = [.error] ∧
    Yields (Network.loneConnector.consumer.runOnce (environment leaping Network.loneRoster.ids 0)
      refusing) asked fun _ t =>
        Clean Network.loneConnector.consumer leaping Network.loneRoster.ids 0 refusing asked t := by
  have hruns : Runs Network.loneRoster 0 { network := Network.vacant } asked :=
    (Runs.done _).call leaping (.initiate _ _)
  have hfree (id : String) (lease : Lease) (hl : (asked.site 0).store.leases.get? id = some lease) :
      lease.holder ≠ Network.loneConnector.consumer.leaseHolder := by
    have hnone : (asked.site 0).store.leases.entries = [] := by decide +kernel
    rw [Table.get?, hnone] at hl
    cases hl
  have hback : NoCallback 0 refusing := fun _ _ => rfl
  exact ⟨by decide +kernel, by decide +kernel, runOnce_clean Network.lone_typed rfl hruns
    Network.loneConnector.consumer hfree leaping hback⟩

end Timed

end ContractNegotiation
