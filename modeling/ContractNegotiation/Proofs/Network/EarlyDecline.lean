import ContractNegotiation.Proofs.Network.Unannounced

namespace ContractNegotiation

open ContractNegotiation.Action Negotiation Relation

namespace Network

variable {n : Nat} {roster : Roster n} {net net' : Network n} {i k : Fin n} {role : Role}
  {v w : Negotiation} {drawn : Nat} {ns : List Negotiation}

section Draining

variable {ids : Nat → String} {m : Manager} {c : QueuedCommand} {cs : List QueuedCommand}

def Targeted (i k : Fin n) (role : Role) (v : Negotiation) (cs : List QueuedCommand) : Prop :=
  k = i ∧ role = .consumer ∧ ∃ c ∈ cs, c.command.target = v.id

theorem Targeted.tail (h : Targeted i k role v (c :: cs))
    (hother : ¬ (role = .consumer ∧ c.command.target = v.id)) : Targeted i k role v cs := by
  obtain ⟨hk, hr, c', hc', htarget⟩ := h
  refine ⟨hk, hr, c', (List.mem_cons.mp hc').resolve_left ?_, htarget⟩
  rintro rfl
  exact hother ⟨hr, htarget⟩

theorem drainCommands_confined (m : Manager) : Yields (m.drainCommands (environment ids k)) net
    fun _ net' => (focus k).Confined net net' := by
  apply (takeCommands_yields m).bind
  rintro batch t ⟨-, ht⟩
  have heach : Yields (each (m.applyCommand (environment ids k)) batch) t fun _ u =>
      (focus k).Confined net u := by
    apply each_yields (fun _ u => (focus k).Confined net u) _ ht.toConfined
    intro c _ u hu
    exact (applyCommand_yields m c).mono fun _ u' hu' => hu.trans hu'.toConfined
  apply heach.bind
  intro _ u hu
  exact yields_pure.mpr hu

variable (hid : v.id ≠ "") (hunleased : Unleased net)
include hid hunleased

theorem applyCommand_withholds (h : (net.site i).Withholds v (Targeted i k m.role v (c :: cs))) :
    Yields (m.applyCommand (environment ids k) c) net fun _ net' =>
      (net'.site i).Withholds v (Targeted i k m.role v cs) := by
  apply (applyCommand_yields m c).mono
  intro _ net' ha
  apply withholds_of_alters ha
  · rintro rfl
    by_cases hmine : m.role = .consumer ∧ c.command.target = v.id
    · exact h.obey_target hid (hunleased.free k) hmine.1 hmine.2
    · exact (h.obey_other (Site.obeys_obey ..) hmine).imp fun hc => hc.tail hmine
  · intro hk
    exact h.imp fun hc => absurd hc.1 hk

theorem drainCommands_withholds (h : (net.site i).Withholds v False) :
    Yields (m.drainCommands (environment ids k)) net fun _ net' =>
      (net'.site i).Withholds v False := by
  apply (takeCommands_yields m).bind
  rintro batch t ⟨rfl, ht⟩
  have htaken : (t.site i).Withholds v (Targeted i k m.role v
      (((net.site k).workload m.role).queue.dequeue m.options.commandBatchSize).1) := by
    apply withholds_of_alters ht
    · rintro rfl
      exact (h.take (hunleased.tallied k) m.role _).imp fun hc => ⟨rfl, hc⟩
    · intro _
      exact h.imp False.elim
  have heach := each_yields
    (fun cs u => Unleased u ∧ (u.site i).Withholds v (Targeted i k m.role v cs))
    (f := m.applyCommand (environment ids k)) (fun c cs u hu =>
      ((applyCommand_unleased hu.1 m c).and (applyCommand_withholds hid hu.1 hu.2)).mono
        fun _ _ hu' => ⟨hu'.1.1, hu'.2⟩) ⟨unleased_of_taken hunleased ht, htaken⟩
  apply heach.bind
  rintro _ u ⟨-, hu⟩
  apply yields_pure.mpr
  refine hu.imp ?_
  rintro ⟨-, -, c, hc, -⟩
  cases hc

end Draining

/-- While the manager of a role at `k` works on a batch, the consumer's record `v` at `i` goes on to
be one that nobody has heard of. -/
structure Withholding (roster : Roster n) (drawn : Nat) (i : Fin n) (v : Negotiation) (k : Fin n)
    (role : Role) (ns : List Negotiation) (net : Network n) : Prop where
  underway : Underway roster drawn k role ns net
  route : net.addresses.get? v.counterPartyAddress ≠ none
  withheld : net.issued ≤ drawn → (net.site i).Withholds v False

structure WithholdingBatch (roster : Roster n) (drawn : Nat) (i : Fin n) (v : Negotiation)
    (k : Fin n)
    (role : Role) (ns : List Negotiation) (net : Network n) : Prop
    extends Withholding roster drawn i v k role ns net where
  unrequested : net.issued ≤ drawn → ∀ x ∈ ns, x.id = v.id → x.state ≠ .requesting

theorem Withholding.perm {others : List Negotiation}
    (h : Withholding roster drawn i v k role ns net)
    (hp : others.Perm ns) : Withholding roster drawn i v k role others net :=
  ⟨h.underway.drop hp.subperm, h.route, h.withheld⟩

theorem WithholdingBatch.perm {others : List Negotiation}
    (h : WithholdingBatch roster drawn i v k role ns net)
    (hp : others.Perm ns) : WithholdingBatch roster drawn i v k role others net :=
  ⟨h.toWithholding.perm hp, fun hd x hx => h.unrequested hd x (hp.mem_iff.mp hx)⟩

section Polls

variable {x : Negotiation} (hw : roster.Wired drawn)
include hw

theorem Withholding.release (h : Withholding roster drawn i v k role (x :: ns) net) :
    Yields (((roster.connector k).manager role).release (environment roster.ids k) x.id) net
      fun _ net' => Withholding roster drawn i v k role ns net' := by
  have hends := (underway_preserved hw k role).release x ns net h.underway
  apply ((release_yields ((roster.connector k).manager role) x.id).andEnds hends).mono
  rintro _ net' ⟨ha, hu⟩
  refine ⟨hu, ?_, fun hd => ?_⟩
  · rw [addresses_of_confined ha.toConfined]
    exact h.route
  · have hwithheld := h.withheld (Nat.le_trans ha.issued hd)
    apply withholds_of_alters ha
    · rintro rfl
      exact hwithheld.records (Site.records_release _) (Site.workload_release ..)
    · exact fun _ => hwithheld

theorem WithholdingBatch.turn (h : WithholdingBatch roster drawn i v k role (x :: ns) net) :
    Yields (((roster.connector k).manager role).processLeased (environment roster.ids k)
      (send roster k) x) net fun _ net' => WithholdingBatch roster drawn i v k role ns net' := by
  have hends := (underway_preserved hw k role).turn x ns net h.underway
  have hsettles := (processLeased_settles (m := (roster.connector k).manager role) hw
    h.underway.tidy).andEnds hends
  have hrest (net' : Network n) (hs : net.issued ≤ net'.issued) (hd : net'.issued ≤ drawn) :
      ∀ y ∈ ns, y.id = v.id → y.state ≠ .requesting := fun y hy =>
    h.unrequested (Nat.le_trans hs hd) y (List.mem_cons_of_mem x hy)
  by_cases hx : net.issued ≤ drawn ∧ x.id = v.id
  · obtain ⟨hd, hxv⟩ := hx
    have hl := h.underway.leased hd
    have hxf := hl.stored x (List.mem_cons_self ..)
    obtain ⟨w, hwf, hunannounced, -⟩ := h.withheld hd
    obtain ⟨rfl, rfl⟩ := hl.accord.eq_of_id hxf (hxv ▸ hwf)
    have hstate := h.unrequested hd w (List.mem_cons_self ..) hxv
    have hturn := unannounced_turn (m := (roster.connector i).manager role) hl.toConsistent hwf
      hunannounced h.route hstate
    apply (hturn.and hsettles).mono
    rintro _ net' ⟨hwithheld, hs, hu⟩
    exact ⟨⟨hu, hs.addresses ▸ h.route, fun _ => hwithheld⟩, hrest net' hs.issued⟩
  · apply hsettles.mono
    rintro _ net' ⟨hs, hu⟩
    refine ⟨⟨hu, hs.addresses ▸ h.route, fun hd => ?_⟩, hrest net' hs.issued⟩
    replace hd := Nat.le_trans hs.issued hd
    have hl := h.underway.leased hd
    apply withholds_touches (h.withheld hd) hs.toTouches fun hid => hx ⟨hd, hid⟩
    exact hl.accord.nonempty k x.id x (hl.stored x (List.mem_cons_self ..))

theorem Withholding.lease {store : Store} {code : Int} {batch : Nat}
    (h : Withholding roster drawn i v k role [] net)
    (hl : (net.site k).store.leaseNext code (some ((roster.connector k).manager role).role) batch
      ((roster.connector k).manager role).leaseHolder net.now = (ns, store)) :
    Withholding roster drawn i v k role ns (net.setStore k store) := by
  have hstore : (focus k).store (net.setStore k store) = store := store_setStore net k store
  refine ⟨h.underway.lease hw (confined_setStore net k store) (by rwa [← hstore] at hl),
    h.route, fun hd => ?_⟩
  apply withholds_of_alters (alters_setSite net k _)
  · rintro rfl
    exact (h.withheld hd).records (Store.leases_of_leaseNext hl).records (Site.workload_store ..)
  · exact fun _ => h.withheld hd

omit hw in
theorem Withholding.batch (h : Withholding roster drawn i v k role ns net')
    (hr : ((roster.connector k).manager role).role = role)
    (hfree : ∀ x ∈ ns, (net'.site k).isFree role net'.now x = true) :
    WithholdingBatch roster drawn i v k role ns net' := by
  refine ⟨h, fun hd x hx hxv hs => ?_⟩
  have hl := h.underway.leased hd
  obtain ⟨w, hwf, hunannounced, hcommands⟩ := h.withheld hd
  obtain ⟨rfl, rfl⟩ := hl.accord.eq_of_id (hl.stored x hx) (hxv ▸ hwf)
  have hrole : role = .consumer := Option.some.inj ((hl.roles w hx).symm.trans hunannounced.role)
  subst hrole
  -- a request for which a command waits is not free
  have hpending := (hcommands hs).resolve_right id
  rw [Site.HasCommand] at hpending
  have hnone := hfree w hx
  simp [Site.isFree, CommandQueue.hasPending, Table.contains, hxv, hpending] at hnone

theorem processState_withholds (h : Withholding roster drawn i v k role [] net) (state : State) :
    Yields (((roster.connector k).manager role).processState (environment roster.ids k)
      (send roster k) state) net fun _ net' => Withholding roster drawn i v k role [] net' := by
  have hr : ((roster.connector k).manager role).role = role := (hw.typed k).manager role
  apply (processState_frees (I := Withholding roster drawn i v k role)
    (J := WithholdingBatch roster drawn i v k role) ?_ ?_ ?_ ?_ ?_ ?_).mono
  · exact fun _ net' h => h.toWithholding
  · exact fun ns others t h hp => h.perm hp
  · exact fun x ns t h _ => h.release hw
  · exact fun ns others t h hp => h.perm hp
  · exact fun x ns t h => h.turn hw
  · exact fun ns store hl => h.lease hw hl
  · rw [hr]
    exact fun ns t ht hfree => ht.batch hr hfree

end Polls

structure Withheld (roster : Roster n) (drawn : Nat) (i : Fin n) (v : Negotiation)
    (net : Network n) : Prop where
  settled : Settled roster drawn net
  unleased : Unleased net
  withheld : net.issued ≤ drawn → (net.site i).Withholds v False

section Rounds

variable (hw : roster.Wired drawn)
include hw

theorem states_withhold {states : List State} (h : Withholding roster drawn i v k role [] net) :
    Yields (total (((roster.connector k).manager role).processState (environment roster.ids k)
      (send roster k)) states) net fun _ net' => Withholding roster drawn i v k role [] net' :=
  total_yields (fun _ t => Withholding roster drawn i v k role [] t)
    (fun state _ _ ht => processState_withholds hw ht state) h

variable (hid : v.id ≠ "") (h : Withheld roster drawn i v net)
include hid h

theorem Withheld.drainCommands (hroute : net.addresses.get? v.counterPartyAddress ≠ none) :
    Yields (((roster.connector k).manager role).drainCommands (environment roster.ids k)) net
      fun _ net' => Withholding roster drawn i v k role [] net' := by
  have hdrain : Yields (((roster.connector k).manager role).drainCommands
      (environment roster.ids k)) net fun _ t =>
        net.issued ≤ drawn → (t.site i).Withholds v False := by
    by_cases hd : net.issued ≤ drawn
    · exact (drainCommands_withholds hid h.unleased (h.withheld hd)).mono fun _ _ ht _ => ht
    · exact (drainCommands_confined _).mono fun _ _ _ hd' => absurd hd' hd
  have hends := Manager.drainCommands_ends (environment_lawful roster.ids k)
    (underway_preserved hw k role) h.settled.underway
  apply ((hdrain.and (drainCommands_confined _)).andEnds hends).mono
  rintro _ t ⟨⟨hwithheld, hc⟩, hunderway⟩
  refine ⟨hunderway, ?_, fun hd => hwithheld (Nat.le_trans hc.issued hd)⟩
  rwa [addresses_of_confined hc]

theorem Withheld.runOnce (hroute : net.addresses.get? v.counterPartyAddress ≠ none) :
    Yields (runOnce roster k role) net fun _ net' =>
      net'.issued ≤ drawn → (net'.site i).Withholds v False := by
  apply (h.drainCommands hw hid hroute).bind
  intro _ t ht
  apply (states_withhold hw ht).bind
  intro _ u hu
  exact yields_pure.mpr hu.withheld

end Rounds

theorem Interlude.withholds (hw : roster.Wired drawn) (htidy : ∀ k, (net.site k).store.Tidy)
    (h : (net.site i).Withholds v False) (hx : Interlude roster net net') :
    (net'.site i).Withholds v False := by
  cases hx.comes hw htidy with
  | called k he heases => exact withholds_of_effect h he heases fun _ _ hx => hx.1
  | queued k role c ha =>
    apply withholds_of_alters ha
    · rintro rfl
      exact h.push role ⟨c, 0⟩
    · exact fun _ => h
  | kept _ hsites => rwa [hsites]

def ActsWhileRegistered (roster : Roster n) (v : Negotiation) (net net' : Network n) : Prop :=
  Acts roster net net' ∧ net.addresses.get? v.counterPartyAddress ≠ none

theorem Withheld.acts (hw : roster.Wired drawn) (hid : v.id ≠ "")
    (h : Withheld roster drawn i v net) (hx : ActsWhileRegistered roster v net net') :
    Withheld roster drawn i v net' := by
  obtain ⟨hx, hroute⟩ := hx
  refine ⟨h.settled.acts hw hx, h.unleased.acts hw hx, ?_⟩
  rcases acts_iff.mp hx with hinterlude | ⟨k, role, rfl⟩
  · intro hd
    have hissued := (h.settled.advances hw hx).issued
    exact hinterlude.withholds hw h.settled.tidy (h.withheld (Nat.le_trans hissued hd))
  · exact (h.runOnce hw hid hroute).after

theorem Withheld.run (hw : roster.Wired drawn) (hid : v.id ≠ "")
    (h : Withheld roster drawn i v net)
    (hx : ReflTransGen (ActsWhileRegistered roster v) net net') :
    Withheld roster drawn i v net' := by
  induction hx with
  | refl => exact h
  | tail _ hx ih => exact ih.acts hw hid hx

section Declining

variable (hw : roster.Wired drawn) (hsettled : Settled roster drawn net)
  (hv : net.finder i v.id = some v) (hr : v.role = some .consumer)
include hsettled hv hr

theorem unannounced_of_requesting (hd : net.issued ≤ drawn) (hs : v.state = .requesting)
    (hnobody : v.correlationId = "") : v.Unannounced v := by
  have haccord := (hsettled.consistent hd).accord
  have hunanswered : v.Unanswered := by
    refine (haccord.ofConsumer i v.id v hv hr).resolve_right ?_
    rintro ⟨j, p, hp, hvp⟩
    exact haccord.nonempty j p.id p hp (hvp.answered.symm.trans hnobody)
  exact ⟨hunanswered, rfl, hr, rfl, by simp [hs], by simp [hs]⟩

theorem withheld_of_declined (hw : roster.Wired drawn) (hunleased : Unleased net)
    (hs : v.state = .requesting) (hnobody : v.correlationId = "") {reason : String}
    (hact : Acts roster net net') (ha : Alters i ((net.site i).update .consumer
      (·.mapQueue (·.enqueue (.decline v.id reason)))) net net') :
    Withheld roster drawn i v net' := by
  refine ⟨hsettled.acts hw hact, hunleased.acts hw hact, fun hd => ?_⟩
  have hunannounced := unannounced_of_requesting hsettled hv hr
    (Nat.le_trans ha.issued hd) hs hnobody
  rw [ha.site]
  refine ⟨v, ?_, hunannounced, fun _ => .inl ?_⟩
  · rw [Site.store_update]
    exact hv
  · rw [Site.HasCommand, Site.workload_update, if_pos rfl]
    simp [Workload.mapQueue, CommandQueue.enqueue, CommandQueue.push, Table.get?_insert,
      Command.target]

end Declining

/-- What has become of the record `w` when the manager has attempted to send its message, and could
not: the attempt is counted, or it was the last one and the record has failed. -/
def CountsAttempt (i : Fin n) (m : Manager) (w : Negotiation) (net final : Network n) : Prop :=
  let attempts := ((net.site i).workload m.role).retries.attempts w.id + 1
  if m.options.backoff.limit ≤ attempts then
    ∃ x, (final.site i).store.find? w.id = some x ∧ x.state = .error
  else (final.site i).store.find? w.id = some w ∧
    ((final.site i).workload m.role).retries.attempts w.id = attempts

theorem terminating_countsAttempt {m : Manager} (h : Consistent roster net)
    (hf : net.finder i v.id = some w)
    (hu : v.Unannounced w) (hroute : net.addresses.get? v.counterPartyAddress ≠ none)
    (hs : w.state = .terminating) (hcount : w.stateCount ≠ 0) :
    Yields (m.processLeased (environment roster.ids i) (send roster i) w) (leasing i m w net)
      fun _ final => CountsAttempt i m w net final := by
  have hrec := records_leasing i m w net
  have hconfined := confined_leasing i m w net
  have hleased : (leasing i m w net).finder i v.id = some w := by
    rwa [finder_of_records hconfined hrec]
  have hgrants : ((leasing i m w net).site i).store.Grants w m.leaseHolder := by
    rw [← hu.id] at hf
    exact grants_leasing (h.accord.nonempty i w.id w hf) hcount hf
  have hterm : w.state.isTerminal = false := by
    rw [hs]
    rfl
  apply (terminating_fails (h.records hconfined hrec) hleased hu hroute hs).mono
  intro _ final ha
  unfold CountsAttempt
  dsimp only
  rw [← workload_leasing i m w net]
  split
  · rename_i hlimit
    rw [ha.site, Store.find?, Site.records_release]
    exact Site.attempt_last hgrants hterm hlimit
  · rename_i hlimit
    obtain ⟨hstore, hattempts⟩ := Site.attempt_counts hlimit
    constructor
    · rw [ha.site, Store.find?, Site.records_release, hstore]
      exact hgrants.stored
    · rw [ha.site, Site.workload_release]
      exact hattempts

variable {settings : Vector Settings n} {draws : Nat → Identifier} {start : Network n}

/-- A request that is declined before it has been made is never known to its provider, and neither
is its end: as long as the provider's address is registered, the record does not come to be
terminated. Every attempt to tell of the end is counted, and with the last one the record fails. -/
theorem decline_unannounced
    (haddress : Function.Injective fun i => (settings.get i).connectorOrDefault.address)
    (hbuilt : Built settings start) (hidle : ∀ k role, (start.site k).workload role = {})
    (hrun : ReflTransGen (Acts (.ofSettings settings draws)) start net)
    (hv : v ∈ (net.site i).store.records) (hr : v.role = some .consumer)
    (hs : v.state = .requesting) (reason : String) :
    Yields (Service.decline ((Roster.ofSettings settings draws).connector i)
        (environment (Roster.ofSettings settings draws).ids i) v.id reason) net
      fun answer declined => answer = .ok v ∧
        ∀ net', ReflTransGen (ActsWhileRegistered (.ofSettings settings draws) v) declined net' →
          (∀ k < net'.issued, ∀ l < net'.issued, (draws k).text = (draws l).text → k = l) →
          ∃ w, (net'.site i).store.find? v.id = some w ∧ w.correlationId = "" ∧
            (∀ k, ∀ x ∈ (net'.site k).store.records, x.correlationId ≠ v.id) ∧
            w.state ∈ [.requesting, .terminating, .cancelled, .error] ∧
            (w.state = .error →
              w.errorDetail = "dispatch retries exhausted: " ++ Loopback.unknown v.id) ∧
            (w.state = .terminating → w.stateCount ≠ 0 →
              net'.addresses.get? v.counterPartyAddress ≠ none →
              let m := ((Roster.ofSettings settings draws).connector i).consumer
              Yields (m.processLeased (environment (Roster.ofSettings settings draws).ids i)
                (send (.ofSettings settings draws) i) w) (leasing i m w net')
                  fun _ final => CountsAttempt i m w net' final) := by
  have hfirst : (Roster.ofSettings settings draws).Wired 0 := wired_ofSettings haddress (by simp)
  have hunleased : Unleased net := (hbuilt.unleased hidle).run hfirst hrun
  have hf : net.finder i v.id = some v := (hunleased.tidy i).find?_of_mem hv
  apply (decline_yields (hfirst.typed i) hf hr).mono
  rintro answer declined ⟨rfl, hact, ha⟩
  refine ⟨rfl, fun net' hafter hdistinct => ?_⟩
  have hw : (Roster.ofSettings settings draws).Wired net'.issued :=
    wired_ofSettings haddress hdistinct
  have hsettled : Settled (.ofSettings settings draws) net'.issued net := hbuilt.settled.run hw hrun
  have hnobody : v.correlationId = "" := by
    have hevolves := (hbuilt.settled.runs_advance hw hrun).evolves i
    exact hevolves.correlationId_of_requesting (hbuilt.records i) v hv hs
  have hdeclined := withheld_of_declined hsettled hf hr hw hunleased hs hnobody hact ha
  have hacts : ReflTransGen (Acts (.ofSettings settings draws)) declined net' :=
    ReflTransGen.mono (fun _ _ h => h.1) _ _ hafter
  have hadvances := hdeclined.settled.runs_advance hw hacts
  have hbefore := hsettled.consistent (Nat.le_trans ha.issued hadvances.issued)
  have hheld := hdeclined.run hw (hbefore.accord.nonempty i v.id v hf) hafter
  have hconsistent := hheld.settled.consistent (Nat.le_refl _)
  obtain ⟨w, hwf, hunannounced, -⟩ := hheld.withheld (Nat.le_refl _)
  refine ⟨w, hwf, hunannounced.correlationId, fun k x hx => ?_, hunannounced.state_mem,
    hunannounced.failed, fun hterminating hcount hroute => ?_⟩
  · exact unreferred_of_unannounced hconsistent hwf hunannounced hx
  · exact terminating_countsAttempt hconsistent hwf hunannounced hroute hterminating hcount

def unsent (i : Fin 2) (roster : Roster 2) : Network 2 :=
  (Service.initiate (roster.connector i) (environment roster.ids i) offered).after introduced

def retracted (i : Fin 2) (roster : Roster 2) : Network 2 :=
  (runOnce roster i .consumer).after ((Service.decline (roster.connector i)
    (environment roster.ids i) (roster.ids 4) "changed my mind").after (unsent i roster))

theorem unsent_of_strangers {roster : Roster 2} (hc : (roster.connector 0).address = "http://c")
    (hp : (roster.connector 1).address = "http://p") :
    ReflTransGen (Acts roster) strangers (unsent 0 roster) := by
  have registered : ReflTransGen (Acts roster) strangers introduced := by
    rw [introduced, ← hc, ← hp]
    exact (ReflTransGen.single (.register 1 _)).tail (.register 0 _)
  exact registered.tail (.initiate 0 offered _)

theorem decline_unannounced_of_retracted :
    ∃ v ∈ ((unsent 0 parties).site 0).store.records, v.state = .requesting ∧
      ∃ w, ((retracted 0 parties).site 0).store.find? v.id = some w ∧ w.state = .terminating ∧
        ((retracted 0 parties).site 0).consumer.retries.attempts w.id = 1 ∧
        Yields ((parties.connector 0).consumer.processLeased (environment parties.ids 0)
          (send parties 0) w) (leasing 0 (parties.connector 0).consumer w (retracted 0 parties))
            fun _ final =>
              CountsAttempt 0 (parties.connector 0).consumer w (retracted 0 parties) final := by
  obtain ⟨v, hv, hid, hr, hs, haddress⟩ : ∃ v ∈ ((unsent 0 parties).site 0).store.records,
      v.id = parties.ids 4 ∧ v.role = some .consumer ∧ v.state = .requesting ∧
        v.counterPartyAddress = "http://p" := by decide +kernel
  have hinjective : Function.Injective fun i =>
      (partySettings.get i).connectorOrDefault.address := by decide +kernel
  have hdecline := decline_unannounced hinjective strangers_built strangers_idle
    (unsent_of_strangers (by decide +kernel) (by decide +kernel)) hv hr hs "changed my mind"
  obtain ⟨_, _, -, ⟨-, hall⟩, rfl⟩ := hdecline.andEnds ends_after
  have hround : ReflTransGen (ActsWhileRegistered parties v)
      ((Service.decline (parties.connector 0) (environment parties.ids 0) v.id
        "changed my mind").after (unsent 0 parties)) (retracted 0 parties) := by
    rw [hid]
    refine .single ⟨.round 0 .consumer _, ?_⟩
    rw [haddress]
    decide +kernel
  obtain ⟨w, hw, -, -, -, -, hcounts⟩ := hall (retracted 0 parties) hround (by decide +kernel)
  have hreached : ∀ w ∈ ((retracted 0 parties).site 0).store.find? v.id, w.state = .terminating ∧
      w.stateCount ≠ 0 ∧ ((retracted 0 parties).site 0).consumer.retries.attempts w.id = 1 := by
    rw [hid]
    decide +kernel
  obtain ⟨hterminating, hcount, hattempts⟩ := hreached w hw
  refine ⟨v, hv, hs, w, hw, hterminating, hattempts, hcounts hterminating hcount ?_⟩
  rw [haddress]
  decide +kernel

/-- A consumer that makes one attempt only has declined a request before it was made. Though the
provider's address has been registered all along, the record has failed. -/
theorem decline_fails :
    (∀ k, (Traffic.hastySettings.get k).Checked) ∧ Built Traffic.hastySettings strangers ∧
    ReflTransGen (Acts Traffic.hastyParties) strangers (unsent 0 Traffic.hastyParties) ∧
    ∃ v ∈ ((unsent 0 Traffic.hastyParties).site 0).store.records, v.role = some .consumer ∧
      v.state = .requesting ∧
      ReflTransGen (ActsWhileRegistered Traffic.hastyParties v)
        ((Service.decline (Traffic.hastyParties.connector 0)
          (environment Traffic.hastyParties.ids 0) v.id "changed my mind").after
            (unsent 0 Traffic.hastyParties)) (retracted 0 Traffic.hastyParties) ∧
      (retracted 0 Traffic.hastyParties).addresses.get? v.counterPartyAddress = some 1 ∧
      ∃ w, ((retracted 0 Traffic.hastyParties).site 0).store.find? v.id = some w ∧
        w.state = .error ∧ w.errorDetail ≠ "changed my mind" := by
  obtain ⟨v, hv, hid, hr, hs, haddress⟩ :
      ∃ v ∈ ((unsent 0 Traffic.hastyParties).site 0).store.records,
        v.id = Traffic.hastyParties.ids 4 ∧ v.role = some .consumer ∧ v.state = .requesting ∧
          v.counterPartyAddress = "http://p" := by decide +kernel
  refine ⟨Traffic.hasty_checked, Traffic.hasty_built,
    unsent_of_strangers (by decide +kernel) (by decide +kernel), v, hv, hr, hs, ?_, ?_, ?_⟩
  · rw [hid]
    refine .single ⟨.round 0 .consumer _, ?_⟩
    rw [haddress]
    decide +kernel
  · rw [haddress]
    decide +kernel
  · obtain ⟨w, hw⟩ : ∃ w, ((retracted 0 Traffic.hastyParties).site 0).store.find?
        (Traffic.hastyParties.ids 4) = some w := Option.isSome_iff_exists.mp (by decide +kernel)
    have hfailed : ∀ w ∈ ((retracted 0 Traffic.hastyParties).site 0).store.find?
        (Traffic.hastyParties.ids 4), w.state = .error ∧ w.errorDetail ≠ "changed my mind" := by
      decide +kernel
    exact ⟨w, hid ▸ hw, hfailed w hw⟩

end Network

end ContractNegotiation
