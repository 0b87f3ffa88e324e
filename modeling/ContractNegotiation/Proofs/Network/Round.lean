import ContractNegotiation.Proofs.Command
import ContractNegotiation.Proofs.Network.Agreement
import ContractNegotiation.Proofs.Network.Turn

namespace ContractNegotiation

open ContractNegotiation.Action Negotiation Relation

namespace Site

variable {s t : Site} {m : Manager} {now : Instant} {c : QueuedCommand}

def Tallied (s : Site) : Prop := ∀ r, (s.workload r).queue.Tallied

theorem Eases.tallied (h : s.Eases t) (hs : s.Tallied) : t.Tallied :=
  fun r => (hs r).of_eq (h.waiting r) (h.pending r)

theorem Tallied.update (h : s.Tallied) (role : Role) {f : CommandQueue → CommandQueue}
    (hf : ∀ q : CommandQueue, q.Tallied → (f q).Tallied) :
    (s.update role (·.mapQueue f)).Tallied := by
  intro r
  rw [workload_update]
  split
  · exact hf _ (h role)
  · exact h r

theorem Obeys.tallied (h : s.Obeys m c now t) (hs : s.Tallied) : t.Tallied := by
  cases h with
  | idle => exact hs
  | written _ _ _ _ _ _ _ _ hsaved =>
    exact ((eases_record hsaved.leases _ _).trans (eases_wake _ _)).tallied hs
  | requeued => exact hs.update m.role fun q hq => hq.push _

theorem Obeys.leases (h : s.Obeys m c now t) : t.store.leases = s.store.leases := by
  cases h with
  | idle => rfl
  | written _ _ _ _ _ _ _ _ hsaved => rw [store_wake, store_record, hsaved.leases]
  | requeued => rw [store_update]

theorem Obeys.tidy (h : s.Obeys m c now t) (hs : s.store.Tidy) : t.store.Tidy := by
  cases h with
  | idle => exact hs
  | written _ _ _ _ _ _ _ _ hsaved =>
    rw [store_wake, store_record]
    exact hsaved.tidy hs
  | requeued => rwa [store_update]

theorem Answers.tidy {outcome : Except Refusal Negotiation} (h : s.Answers now outcome t)
    (hs : s.store.Tidy) : t.store.Tidy := by
  cases h with
  | refused => exact hs
  | granted w _ _ hw =>
    cases hw with
    | nothing => exact hs
    | inserted _ _ hfresh =>
      rw [store_wake]
      exact hs.cons hfresh
    | replaced =>
      rw [store_wake, store_record]
      exact hs.replace w

end Site

namespace Network

variable {n : Nat} {roster : Roster n} {i j k : Fin n} {net net' net'' : Network n} {role : Role}
  {id holder : String} {drawn : Nat} {ids : Nat → String} {m : Manager} {ns : List Negotiation}

theorem applyCommand_yields (m : Manager) (c : QueuedCommand) :
    Yields (m.applyCommand (environment ids i) c) net fun _ net' =>
      Alters i ((net.site i).obey m c net.now net.now) net net' := by
  apply ((situated ids i net).applyCommand_yields m (p := net.page i) (.refl net) c).mono
  rintro _ net' ⟨_, _, _, ha⟩
  exact ha

theorem takeCommands_yields (m : Manager) : Yields (m.takeCommands (environment ids i)) net
    fun batch net' =>
      batch = (((net.site i).workload m.role).queue.dequeue m.options.commandBatchSize).1 ∧
        Alters i ((net.site i).update m.role
          (·.mapQueue fun q => (q.dequeue m.options.commandBatchSize).2)) net net' :=
  (situated ids i net).takeCommands_yields m (p := net.page i) (.refl net)

theorem processLeased_answers (m : Manager) (send : Transport (Network n)) (v : Negotiation)
    (net : Network n) : Yields (m.processLeased (environment ids i) send v) net
      fun _ _ => True :=
  Manager.processLeased_answers
    (fun notice _ => (report_yields (i := i) notice).mono fun _ _ _ => trivial)
    (fun id _ => (release_yields m id).mono fun _ _ _ => trivial) v net

section Polls

variable {send : Transport (Network n)} {I J : List Negotiation → Network n → Prop}
  (perm : ∀ ns others net, I ns net → others.Perm ns → I others net)
  (skip : ∀ v ns net, I (v :: ns) net → (net.site i).isFree m.role net.now v = false →
    Yields (m.release (environment ids i) v.id) net fun _ net' => I ns net')
include perm skip

theorem sifts (net : Network n) : m.Sifts (environment ids i) (fun _ => net.now)
    (fun p t => Alters i p.site net t) I where
  perm := perm
  read _ _ h := ⟨_, _, rfl, h⟩
  skip v vs t q _ h hq hfree := by
    apply skip v vs t h
    rwa [hq.site, hq.now]

theorem processState_frees {state : State}
    (perm' : ∀ ns others net, J ns net → others.Perm ns → J others net)
    (turn : ∀ v ns net, J (v :: ns) net →
      Yields (m.processLeased (environment ids i) send v) net fun _ net' => J ns net')
    (hlease : ∀ ns store, (net.site i).store.leaseNext state.code (some m.role)
      m.options.batchSize m.leaseHolder net.now = (ns, store) → I ns (net.setStore i store))
    (hfree : ∀ ns t, I ns t → (∀ v ∈ ns, (t.site i).isFree m.role t.now v = true) → J ns t) :
    Yields (m.processState (environment ids i) send state) net fun _ net' => J [] net' := by
  have hleased : Yields ((environment ids i).lease state m.role m.options.batchSize m.leaseHolder)
      net fun ns t => I ns t := ⟨_, _, rfl, hlease _ _ rfl⟩
  apply (situated ids i net).processState_keeps (p := net.page i) (sifts perm skip net)
    (.refl net) state hleased (processLeased_answers m send) perm' turn
  intro b q t hb hI
  obtain ⟨_, hnow⟩ := hb.judged
  refine hfree b.due t hI fun v hv => ?_
  rw [hb.shown.site, hb.shown.now, ← hnow]
  exact (hb.mem_due_iff.mp hv).2

end Polls

/-- What holds while the records of a batch have their turns, of those whose turn is still to come.
Unlike what is `Preserved`, it may count on every one of them having its turn. -/
structure Steady (m : Manager) (ids : Nat → String) (i : Fin n) (send : Transport (Network n))
    (I : List Negotiation → Network n → Prop) : Prop where
  perm : ∀ ns others net, I ns net → others.Perm ns → I others net
  skip : ∀ v ns net, I (v :: ns) net → (net.site i).isFree m.role net.now v = false →
    Yields (m.release (environment ids i) v.id) net fun _ net' => I ns net'
  turn : ∀ v ns net, I (v :: ns) net →
    Yields (m.processLeased (environment ids i) send v) net fun _ net' => I ns net'

theorem processState_yields {send : Transport (Network n)}
    {I : List Negotiation → Network n → Prop} (hI : Steady m ids i send I) (state : State)
    (h : ∀ ns store, (net.site i).store.leaseNext state.code (some m.role) m.options.batchSize
      m.leaseHolder net.now = (ns, store) → I ns (net.setStore i store)) :
    Yields (m.processState (environment ids i) send state) net fun _ net' => I [] net' :=
  processState_frees hI.perm hI.skip hI.perm hI.turn h fun _ _ ht _ => ht

structure Unleased (net : Network n) : Prop where
  tidy : ∀ k, (net.site k).store.Tidy
  tallied : ∀ k, (net.site k).Tallied
  free : ∀ k key, (net.site k).store.leases.get? key = none

structure Batch (i : Fin n) (holder : String) (ns : List Negotiation) (net : Network n) : Prop where
  tidy : ∀ k, (net.site k).store.Tidy
  tallied : ∀ k, (net.site k).Tallied
  leased : ∀ k key lease, (net.site k).store.leases.get? key = some lease →
    k = i ∧ key ∈ ns.map Negotiation.id ∧ lease.holder = holder

theorem Unleased.batch (h : Unleased net) (i : Fin n) (holder : String) :
    Batch i holder [] net := by
  refine ⟨h.tidy, h.tallied, fun k key lease hl => ?_⟩
  rw [h.free] at hl
  cases hl

theorem Batch.unleased (h : Batch i holder [] net) : Unleased net := by
  refine ⟨h.tidy, h.tallied, fun k key => ?_⟩
  cases hl : (net.site k).store.leases.get? key with
  | none => rfl
  | some lease =>
    have hmem := (h.leased k key lease hl).2.1
    simp at hmem

theorem Batch.perm {others : List Negotiation} (h : Batch i holder ns net) (hp : others.Perm ns) :
    Batch i holder others net := by
  refine ⟨h.tidy, h.tallied, fun k key lease hl => ?_⟩
  obtain ⟨hk, hmem, hholder⟩ := h.leased k key lease hl
  exact ⟨hk, ((hp.map _).mem_iff).mpr hmem, hholder⟩

theorem Touches.tallied (h : Touches i role id net net') (hn : ∀ k, (net.site k).Tallied)
    (k : Fin n) : (net'.site k).Tallied := by
  by_cases hk : k = i
  · subst hk
    exact fun r => (hn k r).of_eq (h.own.waiting r) (h.own.pending r)
  · exact (h.others k hk).tallied (hn k)

theorem Batch.settles {v : Negotiation} (h : Batch i m.leaseHolder (v :: ns) net)
    (hs : Settles i m v.id net true net') : Batch i m.leaseHolder ns net' := by
  refine ⟨hs.tidy h.tidy, hs.toTouches.tallied h.tallied, fun k key lease hl => ?_⟩
  by_cases hk : k = i
  · subst hk
    rcases hs.own.leases key with he | ⟨-, hn⟩
    · obtain ⟨-, hmem, hholder⟩ := h.leased k key lease (he ▸ hl)
      refine ⟨rfl, ?_, hholder⟩
      rw [List.map_cons, List.mem_cons] at hmem
      apply hmem.resolve_left
      intro hkey
      have hfree := hs.free rfl fun lease hl => (h.leased k v.id lease hl).2.2
      rw [← hkey, hl] at hfree
      cases hfree
    · rw [hn] at hl
      cases hl
  · rw [(hs.others k hk).leases] at hl
    exact absurd (h.leased k key lease hl).1 hk

theorem Unleased.lease (h : Unleased net) {code : Int} {role : Option Role} {batch : Nat}
    {now : Instant} {store : Store}
    (hl : (net.site i).store.leaseNext code role batch holder now = (ns, store)) :
    Batch i holder ns (net.setStore i store) := by
  have hrec := (Store.leases_of_leaseNext hl).records
  have hsite (k : Fin n) : (net.setStore i store).site k =
      if k = i then { net.site i with store } else net.site k := site_setSite net i k _
  refine ⟨fun k => ?_, fun k => ?_, fun k key lease hkey => ?_⟩
  · rw [hsite]
    split
    · simpa only [Store.Tidy, hrec] using h.tidy i
    · exact h.tidy k
  · rw [hsite]
    split
    · intro r
      rw [Site.workload_store]
      exact h.tallied i r
    · exact h.tallied k
  · rw [hsite] at hkey
    split at hkey
    · rename_i hk
      rw [Store.get?_leaseNext hl, h.free] at hkey
      split at hkey
      · rename_i hmem
        cases hkey
        exact ⟨hk, hmem, rfl⟩
      · cases hkey
    · rw [h.free] at hkey
      cases hkey

theorem unleased_of_alters {site : Site} (h : Unleased net) (ha : Alters i site net net')
    (htidy : site.store.Tidy) (htallied : site.Tallied)
    (hleases : site.store.leases = (net.site i).store.leases) : Unleased net' := by
  have hother (k : Fin n) (hk : k ≠ i) : net'.site k = net.site k :=
    site_of_confined ha.toConfined hk
  refine ⟨fun k => ?_, fun k => ?_, fun k key => ?_⟩
  · by_cases hk : k = i
    · rwa [hk, ha.site]
    · exact hother k hk ▸ h.tidy k
  · by_cases hk : k = i
    · rwa [hk, ha.site]
    · exact hother k hk ▸ h.tallied k
  · by_cases hk : k = i
    · rw [hk, ha.site, hleases, h.free]
    · rw [hother k hk, h.free]

theorem Replies.unleased {r : Except Refusal Negotiation} (h : Replies i net r net')
    (hn : Unleased net) :
    Unleased net' :=
  unleased_of_alters hn ⟨h.toConfined, rfl⟩ (h.site.tidy (hn.tidy i))
    (h.site.eases.tallied (hn.tallied i)) h.site.eases.leases

theorem enqueue_yields (m : Manager) (c : Command) :
    Yields (m.enqueue (environment ids i) c) net fun _ net' =>
      Alters i ((net.site i).update m.role (·.mapQueue (·.enqueue c))) net net' := by
  apply (report_yields _).bind
  intro _ t ht
  apply (update_yields m.role _).mono
  intro _ u hu
  rw [ht.site] at hu
  exact ht.trans hu

theorem enqueue_unleased (h : Unleased net) (m : Manager) (c : Command) :
    Yields (m.enqueue (environment ids i) c) net fun _ net' => Unleased net' := by
  apply (enqueue_yields m c).mono
  intro _ net' ha
  apply unleased_of_alters h ha
  · rw [Site.store_update]
    exact h.tidy i
  · exact (h.tallied i).update m.role fun q hq => hq.push _
  · rw [Site.store_update]

theorem unleased_of_taken (h : Unleased net) {limit : Nat} (ha : Alters i ((net.site i).update role
    (·.mapQueue fun q => (q.dequeue limit).2)) net net') : Unleased net' := by
  apply unleased_of_alters h ha
  · rw [Site.store_update]
    exact h.tidy i
  · exact (h.tallied i).update role fun q hq => hq.dequeue _
  · rw [Site.store_update]

theorem applyCommand_unleased (h : Unleased net) (m : Manager) (c : QueuedCommand) :
    Yields (m.applyCommand (environment ids i) c) net fun _ net' =>
      Unleased net' ∧ net.issued ≤ net'.issued := by
  apply (applyCommand_yields m c).mono
  intro _ net' ha
  refine ⟨?_, ha.issued⟩
  have hobeys := (net.site i).obeys_obey m c net.now net.now
  exact unleased_of_alters h ha (hobeys.tidy (h.tidy i))
    (hobeys.tallied (h.tallied i)) hobeys.leases

section Wired

variable (hw : roster.Wired drawn)
include hw

theorem batch_steady (m : Manager) (i : Fin n) (issued : Nat) :
    Steady m roster.ids i (send roster i) fun ns t =>
      Batch i m.leaseHolder ns t ∧ issued ≤ t.issued where
  perm ns others net h hp := ⟨h.1.perm hp, h.2⟩
  skip v ns net h _ := by
    apply (release_settles v.id).mono
    intro _ net' hs
    exact ⟨h.1.settles hs, Nat.le_trans h.2 hs.issued⟩
  turn v ns net h := by
    apply (processLeased_settles hw h.1.tidy).mono
    intro _ net' hs
    exact ⟨h.1.settles hs, Nat.le_trans h.2 hs.issued⟩

omit hw in
theorem drainCommands_unleased (h : Unleased net) (m : Manager) :
    Yields (m.drainCommands (environment ids i)) net fun _ net' =>
      Unleased net' ∧ net.issued ≤ net'.issued := by
  apply (takeCommands_yields m).bind
  rintro batch t ⟨-, ht⟩
  have htaken : Unleased t := unleased_of_taken h ht
  have heach : Yields (each (m.applyCommand (environment ids i)) batch) t fun _ u =>
      Unleased u ∧ net.issued ≤ u.issued := by
    apply each_yields (fun _ u => Unleased u ∧ net.issued ≤ u.issued) _ ⟨htaken, ht.issued⟩
    rintro c _ u ⟨hu, hissued⟩
    apply (applyCommand_unleased hu m c).mono
    rintro _ u' ⟨hu', hle⟩
    exact ⟨hu', Nat.le_trans hissued hle⟩
  apply heach.bind
  intro _ u hu
  exact yields_pure.mpr hu

theorem runOnce_unleased (h : Unleased net) (m : Manager) :
    Yields (m.runOnce (environment roster.ids i) (send roster i)) net fun _ net' =>
      Unleased net' ∧ net.issued ≤ net'.issued := by
  apply (drainCommands_unleased h m).bind
  intro _ t ht
  have hstates : Yields (total (m.processState (environment roster.ids i) (send roster i))
      (State.processable m.role)) t fun _ u => Unleased u ∧ net.issued ≤ u.issued := by
    apply total_yields (fun _ u => Unleased u ∧ net.issued ≤ u.issued) _ ht
    rintro state _ u ⟨hu, hissued⟩
    apply (processState_yields (batch_steady hw m i net.issued) state fun _ _ hl =>
      ⟨hu.lease hl, hissued⟩).mono
    rintro _ u' ⟨hu', hissued⟩
    exact ⟨hu'.unleased, hissued⟩
  apply hstates.bind
  intro _ u hu
  exact yields_pure.mpr hu

theorem Unleased.acts (h : Unleased net) (hx : Acts roster net net') : Unleased net' := by
  have answered (i : Fin n) (call : Service.Call) :
      Unleased ((call.answer (roster.connector i) (environment roster.ids i)).after net) := by
    apply Yields.after
    apply (answer_replies (roster.connector i) (h.tidy i) call).mono
    intro r net' hr
    exact hr.unleased h
  have found (i : Fin n) (id : String) : Yields ((environment roster.ids i).find id) net
      fun _ t => t = net := ⟨_, _, rfl, rfl⟩
  cases hx with
  | initiate i request => exact answered i (.initiate request)
  | counterOffer i id offer => exact answered i (.counterOffer id offer)
  | cancel i id =>
    apply Yields.after
    apply call_yields
    apply (found i id).bind
    rintro v t rfl
    cases v with
    | none => exact yields_pure.mpr h
    | some v =>
      dsimp only
      split
      · exact yields_pure.mpr h
      · apply (enqueue_unleased h _ _).bind
        intro _ u hu
        exact yields_pure.mpr hu
  | decline i id reason =>
    apply Yields.after
    apply call_yields
    apply (found i id).bind
    rintro v t rfl
    cases v with
    | none => exact yields_pure.mpr h
    | some v =>
      apply (enqueue_unleased h _ _).bind
      intro _ u hu
      exact yields_pure.mpr hu
  | round i role =>
    apply Yields.after
    exact (runOnce_unleased hw h _).mono fun _ _ ht => ht.1
  | register i => exact ⟨h.tidy, h.tallied, h.free⟩
  | unregister i => exact ⟨h.tidy, h.tallied, h.free⟩
  | clock now => exact ⟨h.tidy, h.tallied, h.free⟩

theorem Unleased.run (h : Unleased net) (hx : ReflTransGen (Acts roster) net net') :
    Unleased net' := by
  induction hx with
  | refl => exact h
  | tail _ hx ih => exact ih.acts hw hx

end Wired

end Network

end ContractNegotiation
