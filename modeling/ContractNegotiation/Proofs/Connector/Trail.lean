import ContractNegotiation.Proofs.Archive

namespace ContractNegotiation

open ContractNegotiation.Action

namespace Archive

variable {n : Nat} {ids : Nat → String} {i : Fin n} {a b : Archive n} {v : Negotiation}
  {m : Manager} {α : Type}

theorem Trailed.includes (ha : a.Trailed i) (hv : v ∈ (a.store i).records) :
    (a.store i).Includes v := Store.includes_of_find? (ha.tidy.find?_of_mem hv)

theorem wake_leaves : Leaves i (m.wake (environment ids i)) := update_leaves m.role _

section Operations

variable (m)

theorem apply_onward (event : Event) (ha : a.Trailed i) (hv : v ∈ (a.store i).records)
    (hrole : v.role = some m.role) :
    Ends (m.apply (environment ids i) v event) a fun _ b => Onward i a b := by
  refine (transition_ends v event).bind ?_ fun _ _ hb => hb.1.onward ha
  rintro outcome b ⟨hb, now, agreementId, hr⟩
  replace hr := (Except.ok.inj hr).symm
  have hab := hb.onward ha
  cases outcome with
  | rejected => exact hab
  | unchanged => exact hab
  | applied next message =>
    have hp := persist_onward ids "" "" hab.trailed (hab.includes v (ha.includes hv))
      hrole hr
    rw [Negotiation.correlate_empty] at hp
    refine hp.bind ?_ fun _ _ hc => hab.trans hc
    rintro (error | saved) c hc
    · exact hab.trans hc
    · refine wake_leaves.bind_ends fun _ d hd => ?_
      exact hab.trans (hc.spares hd)

theorem findCorrelated_ends (c : String) :
    Ends (m.findCorrelated (environment ids i) c) a fun r b =>
      b = a ∧ r = .ok (m.own ((a.store i).findByCorrelation? c)) := ⟨rfl, rfl⟩

theorem applyCorrelated_tells (c : String) (event : Event) :
    Tells i (m.applyCorrelated (environment ids i) c event) := by
  intro a ha
  refine (findCorrelated_ends m c).bind ?_ ?_
  · rintro found b ⟨rfl, hr⟩
    cases found with
    | none => exact .refl ha
    | some v =>
      obtain ⟨hf, hrole⟩ := m.own_eq_some.mp (Except.ok.inj hr).symm
      exact apply_onward m event ha (Store.correlationId_of_findByCorrelation? hf).1 hrole
  · rintro fault b ⟨rfl, -⟩
    exact .refl ha

theorem identified_leaves (offer : Offer) :
    Leaves i (Manager.identified (environment ids i) offer) := by
  intro a
  unfold Manager.identified
  split
  · exact freshId_leaves.bind_ends fun _ _ hb => ⟨hb, _, rfl⟩
  · exact ⟨.refl a, _, rfl⟩

theorem initiate_tells (request : ContractRequest) :
    Tells i (m.initiate (environment ids i) request) := by
  unfold Manager.initiate
  split
  · exact tells_pure _
  · split
    · exact tells_pure _
    · exact freshId_leaves.tells.bind fun _ => (identified_leaves _).tells.bind fun _ =>
        insert_tells _

theorem counterOffer_tells (id : String) (offer : Offer) :
    Tells i (m.counterOffer (environment ids i) id offer) := by
  intro a ha
  have hfind : Ends (m.findOwned (environment ids i) id) a fun r b =>
      b = a ∧ r = .ok (m.own ((a.store i).find? id)) := ⟨rfl, rfl⟩
  refine hfind.bind ?_ ?_
  · rintro found b ⟨rfl, hr⟩
    cases found with
    | none => exact .refl ha
    | some v =>
      obtain ⟨hf, hrole⟩ := m.own_eq_some.mp (Except.ok.inj hr).symm
      refine (identified_leaves offer).bind_ends fun offer' c hc => ?_
      have hac := hc.onward ha
      have hv : v ∈ (c.store i).records := hc.records ▸ Store.mem_of_find? hf
      exact (apply_onward m _ hac.trailed hv hrole).mono fun _ _ hd => hac.trans hd
  · rintro fault b ⟨rfl, -⟩
    exact .refl ha

theorem requested_tells (token : ClaimToken) (message : RequestMessage) :
    Tells i (m.requested (environment ids i) token message) := by
  unfold Manager.requested
  split
  · exact tells_pure _
  · split
    · exact tells_pure _
    · intro a ha
      refine (findCorrelated_ends m message.processId).bind ?_ ?_
      · rintro found b ⟨rfl, hr⟩
        cases found with
        | some v =>
          obtain ⟨hf, hrole⟩ := m.own_eq_some.mp (Except.ok.inj hr).symm
          dsimp only
          split
          · exact .refl ha
          · exact apply_onward m _ ha (Store.correlationId_of_findByCorrelation? hf).1 hrole
        | none =>
          dsimp only
          generalize (if token.clientId ≠ "" then token.clientId else message.connectorId) = c
          split
          · exact .refl ha
          · split
            · exact .refl ha
            · exact (freshId_leaves.tells.bind fun _ => insert_tells _) b ha
      · rintro fault b ⟨rfl, -⟩
        exact .refl ha

end Operations

section Service

theorem call_tells {block : Action (Archive n) α} (route : Route) (id : String)
    (h : Tells i block) : Tells i (Service.call (environment ids i) route id block) := by
  refine fun a ha => (h a ha).attempt ?_
  rintro (fault | answer) b hb
  · refine (report_leaves rfl).bind_ends fun _ c hc => ?_
    exact hb.spares hc
  · exact hb

theorem read_tells {x : Action (Archive n) α} (h : ∀ a, Ends x a fun _ b => b = a) : Tells i x :=
  fun a ha => (h a).mono fun _ b hb => by
    rw [hb]
    exact .refl ha

theorem terminated_tells (c : Connector) (message : TerminationMessage) :
    Tells i (Service.terminated c (environment ids i) message) := by
  refine call_tells _ _ fun a ha => (findByCorrelation_ends message.processId).bind ?_ ?_
  · rintro found b ⟨rfl, -⟩
    cases found with
    | none => exact .refl ha
    | some v =>
      dsimp only
      split
      · exact applyCorrelated_tells _ _ _ b ha
      · exact .refl ha
  · rintro fault b ⟨rfl, -⟩
    exact .refl ha

theorem agreed_tells (c : Connector) (message : AgreementMessage) :
    Tells i (Service.agreed c (environment ids i) message) := by
  apply call_tells
  unfold Manager.agreed
  split
  · exact tells_pure _
  · exact applyCorrelated_tells _ _ _

theorem receive_tells (c : Connector) (message : RemoteMessage) (token : ClaimToken) :
    Tells i (Service.receive c (environment ids i) message token) := by
  have answers {x : Action (Archive n) (Except Refusal Negotiation)} (h : Tells i x) :
      Tells i (some <$> x) := fun a ha => ends_map.mpr ((h a ha).mono fun _ _ hb => hb)
  cases message with
  | empty => exact tells_pure _
  | request message => exact answers (call_tells _ _ (requested_tells _ token message))
  | offer message => exact answers (call_tells _ _ (applyCorrelated_tells _ _ _))
  | agreement message => exact answers (agreed_tells c message)
  | verification message => exact answers (call_tells _ _ (applyCorrelated_tells _ _ _))
  | event message =>
    unfold Service.receive
    dsimp only
    split
    · exact answers (call_tells _ _ (applyCorrelated_tells _ _ _))
    · exact tells_pure _
  | termination message => exact answers (terminated_tells c message)

theorem enqueue_leaves (command : Command) : Leaves i (m.enqueue (environment ids i) command) :=
  fun _ => (report_leaves rfl).bind_ends fun _ _ hb =>
    (update_leaves m.role _ _).mono fun _ _ hc => ⟨hb.trans hc.1, hc.2⟩

theorem order_tells (id : String)
    {f : Negotiation → Action (Archive n) (Except Refusal Negotiation)}
    {x : Action (Archive n) (Except Refusal Negotiation)} (route : Route)
    (hx : x = Service.call (environment ids i) route id do
      match ← (environment ids i).find id with
      | none => pure (.error (.unknownId id))
      | some v => f v) (hf : ∀ v, Tells i (f v)) : Tells i x := by
  subst hx
  refine call_tells _ _ fun a ha => (find_ends id).bind ?_ ?_
  · rintro found b ⟨rfl, -⟩
    cases found with
    | none => exact .refl ha
    | some v => exact hf v b ha
  · rintro fault b ⟨rfl, -⟩
    exact .refl ha

theorem cancel_tells (c : Connector) (id : String) :
    Tells i (Service.cancel c (environment ids i) id) := by
  refine order_tells id .cancel rfl fun v => ?_
  split
  · exact tells_pure _
  · exact (enqueue_leaves _).tells.bind fun _ => tells_pure _

theorem decline_tells (c : Connector) (id reason : String) :
    Tells i (Service.decline c (environment ids i) id reason) :=
  order_tells id .decline rfl fun _ => (enqueue_leaves _).tells.bind fun _ => tells_pure _

theorem serves_onward {c : Connector} (ha : a.Trailed i)
    (h : c.Serves (environment ids i) a b) : Onward i a b := by
  have tells {α : Type} {x : Action (Archive n) α} (hx : Tells i x) : Onward i a (x.after a) :=
    (hx a ha).after
  have reads {α β : Type} {x : Action (Archive n) α} (f : α → β)
      (hx : ∀ a, Ends x a fun _ b => b = a) : Tells i (x >>= fun y => pure (f y)) :=
    (read_tells hx).bind fun _ => tells_pure _
  cases h with
  | get id => exact tells (call_tells _ _ (read_tells fun _ => rfl))
  | query q =>
    refine tells (call_tells _ _ ?_)
    split
    · exact tells_pure _
    · exact reads _ fun _ => rfl
  | state id => exact tells (call_tells _ _ (reads _ fun _ => rfl))
  | agreementOf id => exact tells (call_tells _ _ (reads _ fun _ => rfl))
  | findAgreement id => exact tells (call_tells _ _ (read_tells fun _ => rfl))
  | initiate request => exact tells (call_tells _ _ (initiate_tells _ request))
  | counterOffer id offer => exact tells (call_tells _ _ (counterOffer_tells _ id offer))
  | cancel id => exact tells (cancel_tells c id)
  | decline id reason => exact tells (decline_tells c id reason)
  | receive message token => exact tells (receive_tells c message token)
  | finalized message => exact tells (call_tells _ _ (applyCorrelated_tells _ _ _))
  | enqueue role command => exact tells (enqueue_leaves command).tells

end Service

section Rounds

theorem release_leaves (id : String) : Leaves i (m.release (environment ids i) id) := by
  refine fun _ => (breakLease_leaves id m.leaseHolder).bind_ends fun r b hb => ?_
  cases r with
  | error error => exact (report_leaves rfl b).mono fun _ _ hc => ⟨hb.trans hc.1, hc.2⟩
  | ok _ => exact ⟨hb, _, rfl⟩

theorem takeCommands_leaves : Leaves i (m.takeCommands (environment ids i)) :=
  fun _ => (workload_leaves m.role).bind_ends fun _ _ hb =>
    (setWorkload_leaves m.role _).bind_ends fun _ _ hc => ⟨hb.trans hc, _, rfl⟩

theorem recordFailure_leaves (id : String) : Leaves i (m.recordFailure (environment ids i) id) :=
  fun _ => now_leaves.bind_ends fun _ _ hb => (workload_leaves m.role).bind_ends fun _ _ hc =>
    (setWorkload_leaves m.role _).bind_ends fun _ _ hd => ⟨hb.trans (hc.trans hd), _, rfl⟩

theorem applyCommand_tells (c : QueuedCommand) :
    Tells i (m.applyCommand (environment ids i) c) := by
  refine fun a ha => (find_ends c.command.target).bind ?_ ?_
  · rintro found b ⟨rfl, hr⟩
    have hf := (Except.ok.inj hr).symm
    cases found with
    | none => exact (report_leaves rfl).tells b ha
    | some v =>
      dsimp only
      split
      · exact (report_leaves rfl).tells b ha
      · rename_i hrole
        rw [Decidable.not_not] at hrole
        refine (transition_ends v c.command.event).bind ?_ fun _ _ hc => hc.1.onward ha
        rintro outcome d ⟨hd, now, agreementId, hr⟩
        replace hr := (Except.ok.inj hr).symm
        have had := hd.onward ha
        have thence {x : Action (Archive n) Unit} {e : Archive n} (hx : Tells i x)
            (he : Onward i b e) : Ends x e fun _ f => Onward i b f :=
          (hx e he.trailed).mono fun _ _ hf => he.trans hf
        cases outcome with
        | rejected => exact thence (report_leaves rfl).tells had
        | unchanged => exact had
        | applied next message =>
          have hv := had.includes v (ha.includes (Store.mem_of_find? hf))
          have hp := persist_onward ids "" "" had.trailed hv hrole hr
          rw [Negotiation.correlate_empty] at hp
          refine hp.bind ?_ fun _ _ he => had.trans he
          rintro (error | saved) e he
          · dsimp only
            split
            · exact thence ((report_leaves rfl).tells.bind fun _ => (update_leaves m.role _).tells)
                (had.trans he)
            · exact thence (report_leaves rfl).tells (had.trans he)
          · exact thence wake_leaves.tells (had.trans he)
  · rintro fault b ⟨rfl, -⟩
    exact .refl ha

structure Holds (i : Fin n) (m : Manager) (a : Archive n) (v : Negotiation) : Prop where
  trailed : a.Trailed i
  includes : (a.store i).Includes v
  role : v.role = some m.role

theorem Holds.onward (h : Holds i m a v) (hb : Onward i a b) : Holds i m b v :=
  ⟨hb.trailed, hb.includes v h.includes, h.role⟩

theorem Holds.spares (h : Holds i m a v) (hb : Spares i a b) : Holds i m b v :=
  h.onward (hb.onward h.trailed)

variable (ids) in
theorem conclude_onward {next : Negotiation} {event : Event} {now : Instant} {agreementId : String}
    {message : Option RemoteMessage} (peer : String) (h : Holds i m a v)
    (ht : v.transition event now agreementId = .applied next message) :
    Ends (m.conclude (environment ids i) v (next.correlate peer)) a fun _ b => Onward i a b := by
  refine (persist_onward ids peer m.leaseHolder h.trailed h.includes h.role ht).bind ?_
    fun _ _ hb => hb
  rintro (error | saved) b hb
  · exact (report_leaves rfl b).mono fun _ _ hc => hb.spares hc.1
  · exact hb

theorem concludeFailed_onward (cause : String) (h : Holds i m a v)
    (hs : v.state.isTerminal = false) :
    Ends (m.concludeFailed (environment ids i) v cause) a fun _ b => Onward i a b := by
  refine (transition_ends v (.fail cause)).bind ?_ fun _ _ hb => hb.1.onward h.trailed
  rintro outcome b ⟨hb, now, agreementId, hr⟩
  obtain rfl := Except.ok.inj hr
  have hfail : v.transition (.fail cause) now "" =
      .applied { v.enter .error now with errorDetail := cause } none := by
    simp [Negotiation.transition, hs]
  have hc := conclude_onward ids "" (h.spares hb) hfail
  rw [Negotiation.correlate_empty] at hc
  rw [Negotiation.next_fail hs]
  exact hc.mono fun _ _ hd => (hb.onward h.trailed).trans hd

variable {send : Transport (Archive n)} (hsend : ∀ message, Tells i (send message))
include hsend

theorem deliver_onward {next : Negotiation} {now : Instant} {agreementId : String}
    {message : RemoteMessage} (h : Holds i m a v)
    (ht : v.transition m.turn now agreementId = .applied next (some message)) :
    Ends (m.deliver (environment ids i) send v next message) a fun _ b => Onward i a b := by
  have hs := (Negotiation.row_of_transition ht).isTerminal
  have fails {b : Archive n} (cause : String) (hb : Onward i a b) :
      Ends (m.concludeFailed (environment ids i) v cause >>= fun _ => pure false) b
        fun _ c => Onward i a c :=
    ((concludeFailed_onward cause (h.onward hb) hs).mono fun _ _ hc => hb.trans hc).andPure
  refine (hsend message a h.trailed).bind ?_ fun _ _ hb => hb
  rintro (peer | text | text) b hb
  · refine (update_leaves m.role _).bind_ends fun _ c hc => ?_
    have hac := hb.spares hc
    exact ((conclude_onward ids peer (h.onward hac) ht).mono fun _ _ hd => hac.trans hd).andPure
  · refine (recordFailure_leaves v.id).bind_ends fun (exhausted, attempts) c hc => ?_
    dsimp only
    split
    · refine (report_leaves rfl).bind_ends fun _ d hd => ?_
      exact fails _ (hb.spares (hc.trans hd))
    · refine (report_leaves rfl).bind_ends fun _ d hd => ?_
      refine (release_leaves v.id).bind_ends fun _ e he => ?_
      exact hb.spares (hc.trans (hd.trans he))
  · refine (update_leaves m.role _).bind_ends fun _ c hc => ?_
    refine (report_leaves rfl).bind_ends fun _ d hd => ?_
    exact fails _ (hb.spares (hc.trans hd))

theorem advance_onward (h : Holds i m a v) :
    Ends (m.advance (environment ids i) send v) a fun _ b => Onward i a b := by
  have passes {b : Archive n} (notice : Notice) (hn : notice.isStep = false) (hb : Spares i a b) :
      Ends ((environment ids i).report notice >>= fun _ =>
        m.release (environment ids i) v.id >>= fun _ => pure true) b fun _ c => Onward i a c := by
    refine (report_leaves hn).bind_ends fun _ c hc => ?_
    refine (release_leaves v.id).bind_ends fun _ d hd => ?_
    exact (hb.trans (hc.trans hd)).onward h.trailed
  refine (transition_ends v m.turn).bind ?_ fun _ _ hb => hb.1.onward h.trailed
  rintro outcome b ⟨hb, now, agreementId, hr⟩
  replace hr := (Except.ok.inj hr).symm
  have hab := hb.onward h.trailed
  cases outcome with
  | rejected => exact passes _ rfl hb
  | unchanged => exact passes _ rfl hb
  | applied next message =>
    cases message with
    | some message =>
      exact (deliver_onward hsend (h.spares hb) hr).mono fun _ _ hc => hab.trans hc
    | none =>
      have hc := conclude_onward ids "" (h.spares hb) hr
      rw [Negotiation.correlate_empty] at hc
      exact (hc.mono fun _ _ hd => hab.trans hd).andPure

theorem processLeased_onward (h : Holds i m a v) :
    Ends (m.processLeased (environment ids i) send v) a fun _ b => Onward i a b := by
  refine (advance_onward hsend h).attempt ?_
  rintro (fault | settled) b hb
  · refine (report_leaves rfl).bind_ends fun _ c hc => ?_
    exact (release_leaves v.id c).mono fun _ _ hd => hb.spares (hc.trans hd.1)
  · cases settled with
    | true => exact hb
    | false =>
      exact (release_leaves v.id b).mono fun _ _ hc => hb.spares hc.1

theorem upholds : Manager.Upholds m (environment ids i) send fun vs b =>
    Onward i a b ∧ ∀ v ∈ vs, Holds i m b v where
  drop vs others b hb hsub := ⟨hb.1, fun v hv => hb.2 v (hsub.subset hv)⟩
  now vs b hb := (now_leaves b).mono fun _ c hc =>
    ⟨hb.1.spares hc.1, fun v hv => (hb.2 v hv).spares hc.1⟩
  workload vs b hb := (workload_leaves m.role b).mono fun _ c hc =>
    ⟨hb.1.spares hc.1, fun v hv => (hb.2 v hv).spares hc.1⟩
  take b hb := (takeCommands_leaves b).mono fun _ c hc =>
    ⟨hb.1.spares hc.1, by simp⟩
  command c b hb := (applyCommand_tells c b hb.1.trailed).mono fun _ d hd =>
    ⟨hb.1.trans hd, by simp⟩
  lease state b hb := by
    refine (lease_ends state m.role _ _).mono ?_
    rintro _ c ⟨hc, vs, rfl, hvs⟩
    have hbc := hc.onward hb.1.trailed
    refine ⟨hb.1.trans hbc, fun v hv => ?_⟩
    have hv := hvs v hv
    exact ⟨hbc.trailed, hbc.includes v (hb.1.trailed.includes hv.1), hv.2⟩
  release v vs b hb := (release_leaves v.id b).mono fun _ c hc =>
    ⟨hb.1.spares hc.1,
      fun w hw => (hb.2 w (List.mem_cons_of_mem _ hw)).spares hc.1⟩
  turn v vs b hb := (processLeased_onward hsend (hb.2 v List.mem_cons_self)).mono fun _ c hc =>
    ⟨hb.1.trans hc, fun w hw => (hb.2 w (List.mem_cons_of_mem _ hw)).onward hc⟩

theorem runOnce_tells : Tells i (m.runOnce (environment ids i) send) := by
  refine fun a ha => ((upholds (a := a) hsend).runOnce ?_).mono fun _ _ hb => hb.1
  exact ⟨.refl ha, by simp⟩

theorem runGuarded_tells : Tells i (m.runGuarded (environment ids i) send) := by
  refine fun a ha => (runOnce_tells hsend a ha).attempt ?_
  rintro (fault | handled) b hb
  · refine (report_leaves rfl).bind_ends fun _ c hc => ?_
    exact hb.spares hc
  · exact hb

end Rounds

theorem start_tells : Tells i (m.start (environment ids i)) := by
  refine (workload_leaves m.role).tells.bind fun w => ?_
  split
  · exact tells_pure _
  · exact (setWorkload_leaves m.role _).tells.bind fun _ => (report_leaves rfl).tells

theorem stop_tells : Tells i (m.stop (environment ids i)) := by
  refine (workload_leaves m.role).tells.bind fun w => ?_
  split
  · exact (setWorkload_leaves m.role _).tells.bind fun _ => (report_leaves rfl).tells
  · exact tells_pure _

inductive Runs (roster : Roster n) (i : Fin n) : Archive n → Archive n → Prop where
  | done (a : Archive n) : Runs roster i a a
  | call {a b c : Archive n} : Runs roster i a b →
      (roster.connector i).Serves (environment roster.ids i) b c → Runs roster i a c
  | round {a b : Archive n} (role : Role) (send : Transport (Archive n)) : Runs roster i a b →
      (∀ message s, Runs roster i s ((send message).after s)) →
      Runs roster i a ((((roster.connector i).manager role).runOnce (environment roster.ids i)
        send).after b)
  | guarded {a b : Archive n} (role : Role) (send : Transport (Archive n)) : Runs roster i a b →
      (∀ message s, Runs roster i s ((send message).after s)) →
      Runs roster i a ((((roster.connector i).manager role).runGuarded (environment roster.ids i)
        send).after b)
  | start {a b : Archive n} (role : Role) : Runs roster i a b → Runs roster i a
      ((((roster.connector i).manager role).start (environment roster.ids i)).after b)
  | stop {a b : Archive n} (role : Role) : Runs roster i a b → Runs roster i a
      ((((roster.connector i).manager role).stop (environment roster.ids i)).after b)
  | elsewhere {a b c : Archive n} : Runs roster i a b → c.network.site i = b.network.site i →
      c.log = b.log → c.versions = b.versions → Runs roster i a c

theorem Runs.onward {roster : Roster n} (h : Runs roster i a b) (ha : a.Trailed i) :
    Onward i a b := by
  have tells {α : Type} {x : Action (Archive n) α} {a b : Archive n} (hb : Onward i a b)
      (hx : Tells i x) : Onward i a (x.after b) := hb.trans (hx b hb.trailed).after
  have sends {send : Transport (Archive n)}
      (h : ∀ message s, s.Trailed i → Onward i s ((send message).after s))
      (message : RemoteMessage) : Tells i (send message) :=
    fun s hs => ends_after.mono fun _ t ht => ht ▸ h message s hs
  induction h with
  | done a => exact .refl ha
  | call _ hx ih => exact (ih ha).trans (serves_onward (ih ha).trailed hx)
  | round role send _ _ ih ihsend => exact tells (ih ha) (runOnce_tells (sends ihsend))
  | guarded role send _ _ ih ihsend => exact tells (ih ha) (runGuarded_tells (sends ihsend))
  | start role _ ih => exact tells (ih ha) start_tells
  | stop role _ ih => exact tells (ih ha) stop_tells
  | elsewhere _ hsite hlog hversions ih =>
    refine (ih ha).trans (Spares.onward ⟨?_, hversions, fun id => ?_⟩ (ih ha).trailed)
    · simp only [Archive.store, hsite]
    · simp only [entriesOf, hlog]

theorem trailed_of_empty (hrecords : (a.store i).records = []) (hlog : a.log = [])
    (hversions : a.versions = []) : a.Trailed i where
  tidy := Store.tidy_of_records hrecords
  stored id := by simp [versionsOf, hversions, Store.find?, hrecords]
  counted id k v hk := by simp [versionsOf, hversions] at hk
  told id := by simp [entriesOf, versionsOf, hlog, hversions, Trail.entries]

/-- Whatever saves fail, what the log tells of a record is its first version and then every next one
in turn. The last of them is stored, and they are numbered from one. -/
theorem log_complete {roster : Roster n} (hrecords : (a.store i).records = []) (hlog : a.log = [])
    (hversions : a.versions = []) (hrun : Runs roster i a b) (id : String) :
    b.entriesOf id = Trail.entries (b.versionsOf id) ∧
      (b.versionsOf id).getLast? = (b.store i).find? id ∧
      ∀ (k : Nat) (v : Negotiation), (b.versionsOf id)[k]? = some v →
        v.stateCount = .ofNat (k + 1) := by
  have hb := (hrun.onward (trailed_of_empty hrecords hlog hversions)).trailed
  exact ⟨hb.told id, hb.stored id, hb.counted id⟩

def unreliable : Archive 1 where
  network := Network.vacant
  failures := [some (.ok (.medium .internalError "disk full")), none, some (.error ⟨"disk lost"⟩)]

def ask : Action (Archive 1) (Except Refusal Negotiation) :=
  Service.initiate Network.loneConnector (environment Network.loneRoster.ids (Fin.last 0))
    { counterPartyAddress := "http://p", offer := some {} }

def poll : Action (Archive 1) Nat :=
  (Network.loneConnector.manager .consumer).runOnce
    (environment Network.loneRoster.ids (Fin.last 0)) fun _ => pure (.ok "peer")

def recovered : Archive 1 := poll.after (poll.after (ask.after (ask.after unreliable)))

theorem log_complete_of_recovered : ∃ id,
    (recovered.versionsOf id).map Negotiation.state = [.requesting, .requested] ∧
      recovered.entriesOf id = Trail.entries (recovered.versionsOf id) := by
  have hrun : Runs Network.loneRoster 0 unreliable recovered := by
    have hasked : Runs Network.loneRoster 0 unreliable (ask.after (ask.after unreliable)) :=
      ((Runs.done unreliable).call (.initiate _ _)).call (.initiate _ _)
    exact (hasked.round .consumer _ fun _ s => .done s).round .consumer _ fun _ s => .done s
  refine ⟨(recovered.versions.head?.map Negotiation.id).getD "", by decide +kernel, ?_⟩
  exact (log_complete rfl rfl rfl hrun _).1

end Archive

end ContractNegotiation
