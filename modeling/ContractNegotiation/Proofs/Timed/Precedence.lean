import ContractNegotiation.Proofs.Timed.Loop
import ContractNegotiation.Proofs.Timed.Upkeep

namespace ContractNegotiation

open ContractNegotiation.Action Negotiation

namespace Page

variable {p q base : Page} {m : Manager} {v : Negotiation} {vs : List Negotiation}
  {rest : List State} {id : String}

def Bars (p : Page) (m : Manager) (id : String) : Prop :=
  (p.site.workload m.role).queue.hasPending id = true ∨
    ∀ v, p.site.store.find? id = some v → v.state ∉ State.processable m.role

structure Leaves (base : Page) (m : Manager) (id : String) (p : Page) : Prop where
  record : p.site.store.find? id = base.site.store.find? id
  tries : p.site.tries m.role id = base.site.tries m.role id
  silent : ∀ message ∈ p.sent, message.processId ≠ id
  unwritten : ∃ loop, p.written = base.written ++ loop ∧ ∀ w ∈ loop, w.id ≠ id

structure Spares (m : Manager) (base : Page) (rest : List State) (vs : List Negotiation)
    (p : Page) : Prop where
  states : ∀ state ∈ rest, state ∈ State.processable m.role
  queue : (p.site.workload m.role).queue = (base.site.workload m.role).queue
  turns : ∀ v ∈ vs, ¬ base.Bars m v.id
  leaves : ∀ id, base.Bars m id → base.Leaves m id p

theorem Leaves.turns {e : Ending} (h : base.Leaves m id p) (ht : p.Turns m v e q)
    (hs : m.Suits v e) (hid : id ≠ v.id) : base.Leaves m id q := by
  obtain ⟨loop, hwritten, hloop⟩ := h.unwritten
  refine ⟨?_, ?_, fun message hmessage => ?_, loop ++ news v e, ?_, fun w hw => ?_⟩
  · rw [ht.settles.find?, if_neg hid, h.record]
  · rw [ht.tries, if_neg fun hn => hid hn.2, h.tries]
  · rw [ht.sent, List.mem_append, Option.mem_toList] at hmessage
    rcases hmessage with hbefore | hnew
    · exact h.silent message hbefore
    · rw [hs.processId message hnew]
      exact hid.symm
  · rw [ht.written, hwritten, List.append_assoc]
  · rcases List.mem_append.mp hw with hbefore | hnew
    · exact hloop w hbefore
    · rw [id_of_mem_news hs hnew]
      exact hid.symm

theorem carries_spares (m : Manager) (base : Page) : Carries m (Spares m base) where
  perm rest vs ws p h hp :=
    ⟨h.states, h.queue, fun v hv => h.turns v (hp.mem_iff.mp hv), h.leaves⟩
  poll state rest now b p q h hclear hstate hs := by
    refine ⟨(List.forall_mem_cons.mp h.states).2, ?_, fun v hv hbars => ?_, fun id hbars => ?_⟩
    · rw [hs.workload, h.queue]
    · obtain ⟨hleased, hfree⟩ := hs.mem_due_iff.mp hv
      have hoffers := hs.offers hclear hstate hleased
      rcases hbars with hpending | hidle
      · simp [Site.isFree_eq, hs.workload, h.queue, hpending] at hfree
      · have hstored := (h.leaves v.id (.inr hidle)).record
        rw [hoffers.stored] at hstored
        exact hidle v hstored.symm (hoffers.state ▸ hstate)
    · have hleaves := h.leaves id hbars
      refine ⟨(hs.find? id).trans hleaves.record, ?_, hs.sent ▸ hleaves.silent,
        hs.written ▸ hleaves.unwritten⟩
      rw [← hleaves.tries, Site.tries, hs.workload]
      rfl
  turn rest v vs p q begun counted failed agreementId answer h hheld ht := by
    have hsuits := Manager.suits_ending hheld.lends.applied (p.site.tries m.role v.id) begun counted
      failed agreementId answer
    have hturns := List.forall_mem_cons.mp h.turns
    refine ⟨h.states, (ht.queue m.role).trans h.queue, hturns.2, fun id hbars => ?_⟩
    exact (h.leaves id hbars).turns ht hsuits fun hid => hturns.1 (hid ▸ hbars)

theorem spares_start (m : Manager) (p : Page) (hsent : p.sent = []) :
    Spares m p (State.processable m.role) [] p := by
  refine ⟨fun _ h => h, rfl, by simp, fun id _ => ⟨rfl, rfl, by simp [hsent], [], by simp, by simp⟩⟩

end Page

namespace Timed

variable {n : Nat} {m : Manager} {clock : Nat → Instant} {ids : Nat → String} {i : Fin n}
  {send : Transport (Timed n)} {s t : Timed n}

structure Drained (m : Manager) (i : Fin n) (s t : Timed n) : Prop where
  tallied : (t.site i).Tallied
  record : ∀ id, (∀ c ∈ drained m i s, c.command.target ≠ id) →
    (t.site i).store.find? id = (s.site i).store.find? id
  tries : ∀ id, (∀ c ∈ drained m i s, c.command.target ≠ id) →
    (t.site i).tries m.role id = (s.site i).tries m.role id

theorem drainCommands_drained (h : (s.site i).Tallied) :
    Yields (m.drainCommands (environment clock ids i)) s fun _ t => Drained m i s t := by
  have hcounts : Yields (m.drainCommands (environment clock ids i)) s fun _ t =>
      Owes i Site.Tallied (s.site i).store.leases m.leaseHolder [] t :=
    drainCommands_owes Site.enduring_tallied (owes_start h)
  apply (hcounts.and ((drainCommands_amends m s).and (drainCommands_tries m s))).mono
  rintro _ t ⟨howes, ⟨-, hfind⟩, htries⟩
  exact ⟨howes.kept, hfind, htries m.role⟩

end Timed

namespace Chronicle

variable {n : Nat} {i : Fin n} {dispatch : Transport (Timed n)}
  {connectors : Vector Connector n} {draws : Nat → Identifier} {s₀ s : Timed n}

/-- Between its commands and its end a round has passed over a record for which a command waits: the
record is as it was, no message has been sent for it, and it is not leased. -/
structure PassesOver (m : Manager) (i : Fin n) (id : String) (s t : Chronicle n) : Prop where
  leaves : (s.page i).Leaves m id (t.page i)
  unleased : ∀ lease, (t.site i).store.leases.get? id = some lease → lease.holder ≠ m.leaseHolder

theorem runOnce_spares {m : Manager} {clock : Nat → Instant} {ids : Nat → String}
    {R : Timed n → Prop} (hids : ∀ k, ids k ≠ "") (hback : Timed.NoCallback i dispatch)
    (hclear : (s.site i).store.Clear m)
    (hcommands : Yields (m.drainCommands (Timed.environment clock ids i)) s fun _ t => R t) :
    Yields (m.runOnce (environment clock ids i) (send dispatch)) { timed := s } fun _ t =>
      R ((m.drainCommands (environment clock ids i)).after { timed := s }).timed ∧
        (t.site i).store.Clear m ∧ Page.Spares m
          (((m.drainCommands (environment clock ids i)).after { timed := s }).page i) [] []
            (t.page i) := by
  have hlending : Yields (m.drainCommands (environment clock ids i)) { timed := s } fun _ t =>
      (t.site i).store.Clear m ∧ t.sent = [] := drainCommands_clear hids hback hclear
  have hlifted : Yields (m.drainCommands (environment clock ids i)) { timed := s } fun _ t =>
      t.sent = [] ∧ R t.timed := drainCommands_yields hcommands
  have hdrain := (hlending.and hlifted).mono fun _ _ ht => And.intro ht.1.1 ht.2
  apply (runOnce_carries (Page.carries_spares m _) hback hdrain fun ht =>
    Page.spares_start m _ ht.1).mono
  rintro _ t ⟨⟨-, hr⟩, hspares⟩
  exact ⟨hr, hspares⟩

/-- A command that still waits once a round has applied its commands decides first: the loop leaves
its record alone. Before that, nothing but a command of the batch has changed the record. -/
theorem runOnce_defers (hc : (connectors.get i).Typed)
    (hstart : (s₀.site i).store.records = [])
    (hidle : ∀ role, (s₀.site i).workload role = {})
    (hworks : Timed.Works (.drawing connectors draws) i s₀ s) (m : Manager)
    (hfree : ∀ id lease, (s₀.site i).store.leases.get? id = some lease →
      lease.holder ≠ m.leaseHolder) (clock : Nat → Instant) (hback : Timed.NoCallback i dispatch) :
    Yields (m.runOnce (environment clock (Roster.drawing connectors draws).ids i) (send dispatch))
      { timed := s } fun _ t => ∃ drained,
        drained = (m.drainCommands (environment clock (Roster.drawing connectors draws).ids
          i)).after { timed := s } ∧
        ((t.site i).workload m.role).queue = ((drained.site i).workload m.role).queue ∧
        ∀ c ∈ ((drained.site i).workload m.role).queue.waiting,
          drained.PassesOver m i c.command.target t ∧
          ((∀ e ∈ Timed.drained m i s, e.command.target ≠ c.command.target) →
            (drained.site i).store.find? c.command.target =
              (s.site i).store.find? c.command.target ∧
            (drained.site i).tries m.role c.command.target =
              (s.site i).tries m.role c.command.target) := by
  have hids (k : Nat) : (draws k).text ≠ "" := (draws k).text_ne_empty
  have hclear := hworks.runs.clear hc hstart hfree
  have htallied : (s.site i).Tallied := by
    apply hworks.tallied
    intro role id
    rw [hidle]
    rfl
  apply (runOnce_spares hids hback hclear (Timed.drainCommands_drained htallied)).mono
  rintro _ t ⟨hdrained, hunleased, hspares⟩
  refine ⟨_, rfl, hspares.queue, fun c hwaits => ⟨⟨?_, fun lease hl hm => ?_⟩, fun hnone => ?_⟩⟩
  · have hpending := ((hdrained.tallied m.role).hasPending_iff c.command.target).mpr
    exact hspares.leaves _ (.inl (hpending ⟨c, hwaits, rfl⟩))
  · exact absurd (hunleased.lending.only _ lease hl hm) (by simp)
  · exact ⟨hdrained.record _ hnone, hdrained.tries _ hnone⟩

def patient : Connector := .create "c" "http://c" { commandBatchSize := 1 } "first" "second"

def patientRoster : Roster 1 := .drawing #v[patient] fun k => ⟨.replicate 16 (UInt8.ofNat k)⟩

def declining (reason : String) (s : Timed 1) : Timed 1 :=
  (Service.decline patient (Timed.environment Timed.leaping patientRoster.ids (Fin.last 0))
    (patientRoster.ids 0) reason).after s

def undecided : Timed 1 :=
  (Service.initiate patient (Timed.environment Timed.leaping patientRoster.ids (Fin.last 0))
    { counterPartyAddress := "http://p", offer := some {} }).after { network := Network.vacant }

def contested : Timed 1 := declining "late" (declining "dear" undecided)

theorem works_contested :
    Timed.Works patientRoster 0 { network := Network.vacant } contested := by
  have begun : Timed.Works patientRoster 0 { network := Network.vacant } undecided :=
    (Timed.Works.done _).call Timed.leaping (.initiate _ _)
  have declines (reason : String) {s : Timed 1}
      (h : Timed.Works patientRoster 0 { network := Network.vacant } s) :
      Timed.Works patientRoster 0 { network := Network.vacant } (declining reason s) :=
    h.call Timed.leaping (.decline _ _ _)
  exact declines "late" (declines "dear" begun)

theorem runOnce_defers_of_contested :
    (((patient.consumer.drainCommands (environment Timed.leaping patientRoster.ids 0)).after
      { timed := contested }).site 0).store.records.map Negotiation.state = [.terminating] ∧
    (((patient.consumer.drainCommands (environment Timed.leaping patientRoster.ids 0)).after
      { timed := contested }).site 0).consumer.queue.waiting.map (·.command.target) =
        [patientRoster.ids 0] ∧
    Yields (patient.consumer.runOnce (environment Timed.leaping patientRoster.ids 0)
      (send fun _ => pure (.ok "peer"))) { timed := contested } fun _ t => ∃ drained,
        drained = (patient.consumer.drainCommands (environment Timed.leaping patientRoster.ids
          0)).after { timed := contested } ∧
        ((t.site 0).workload .consumer).queue = ((drained.site 0).workload .consumer).queue ∧
        ∀ c ∈ ((drained.site 0).workload .consumer).queue.waiting,
          drained.PassesOver patient.consumer 0 c.command.target t ∧
          ((∀ e ∈ Timed.drained patient.consumer 0 contested,
              e.command.target ≠ c.command.target) →
            (drained.site 0).store.find? c.command.target =
              (contested.site 0).store.find? c.command.target ∧
            (drained.site 0).tries .consumer c.command.target =
              (contested.site 0).tries .consumer c.command.target) := by
  have hc : (#v[patient].get 0).Typed := ⟨rfl, rfl⟩
  have hidle (role : Role) :
      (({ network := Network.vacant } : Timed 1).site 0).workload role = {} := by
    cases role <;> rfl
  have hfree (id : String) (lease : Lease)
      (hl : (Network.vacant.site 0).store.leases.get? id = some lease) :
      lease.holder ≠ patient.consumer.leaseHolder := by cases hl
  have hback : Timed.NoCallback 0 (fun _ => pure (.ok "peer") : Transport (Timed 1)) :=
    fun _ _ => rfl
  exact ⟨by decide +kernel, by decide +kernel, runOnce_defers hc rfl hidle works_contested
    patient.consumer hfree Timed.leaping hback⟩

end Chronicle

end ContractNegotiation
