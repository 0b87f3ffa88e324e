import ContractNegotiation.Manager.Round
import ContractNegotiation.Proofs.Manager
import Mathlib.Data.List.Perm.Subperm

namespace ContractNegotiation

open ContractNegotiation.Action

variable {σ ρ : Type} {f : Focus σ ρ} {ids : Nat → String} {env : Environment σ} {s t u : σ}
  {m : Manager} {send : Transport σ} {n : Negotiation}

namespace Focus

def Written (f : Focus σ ρ) (s : σ) (v next : Negotiation) (event : Event)
    (agreementId peer holder : String) (t : σ) : Prop :=
  (f.Keeps s t ∧ ¬ (f.store s).Grants v holder) ∨
    f.Confined s t ∧
      (f.store s).Moved v event agreementId peer (v.successor next peer) (f.store t)

structure Released (f : Focus σ ρ) (id : String) (s t : σ) : Prop extends f.Confined s t where
  records : (f.store t).records = (f.store s).records
  leases : ∀ other, other ≠ id → (f.store t).leases.get? other = (f.store s).leases.get? other

variable {v next : Negotiation} {event : Event} {agreementId peer holder id : String}

theorem Wrote.written {r : Except Fault (Except StoreError Negotiation)}
    (h : f.Wrote s v next event agreementId peer holder r t) :
    f.Written s v next event agreementId peer holder t := by
  rcases h with ⟨hk, hg, -⟩ | ⟨-, hw⟩
  · exact .inl ⟨hk, hg⟩
  · exact .inr hw

theorem Written.confined (h : f.Written s v next event agreementId peer holder t) :
    f.Confined s t := by
  rcases h with ⟨hk, -⟩ | ⟨hc, -⟩
  · exact hk.toConfined
  · exact hc

theorem Written.before (h : f.Written s v next event agreementId peer holder t) (ht : f.Keeps t u) :
    f.Written s v next event agreementId peer holder u := by
  rcases h with ⟨hk, hg⟩ | ⟨hc, hm⟩
  · exact .inl ⟨hk.trans ht, hg⟩
  · exact .inr ⟨hc.trans ht.toConfined, ht.store.symm ▸ hm⟩

theorem Written.after (h : f.Written t v next event agreementId peer holder u) (hs : f.Keeps s t) :
    f.Written s v next event agreementId peer holder u := by
  rcases h with ⟨hk, hg⟩ | ⟨hc, hm⟩
  · exact .inl ⟨hs.trans hk, hs.store ▸ hg⟩
  · exact .inr ⟨hs.toConfined.trans hc, hs.store ▸ hm⟩

theorem Keeps.released (h : f.Keeps s t) : f.Released id s t :=
  ⟨h.toConfined, by rw [h.store], fun _ _ => by rw [h.store]⟩

theorem Released.trans (h : f.Released id s t) (h' : f.Released id t u) : f.Released id s u :=
  ⟨h.toConfined.trans h'.toConfined, h'.records.trans h.records,
    fun other ho => (h'.leases other ho).trans (h.leases other ho)⟩

inductive Turned (f : Focus σ ρ) (ids : Nat → String) (m : Manager)
    (Sends : RemoteMessage → σ → Except Fault DispatchResult → σ → Prop) (s : σ)
    (n : Negotiation) : σ → Prop where
  | passed {t : σ} : f.Keeps s t → Turned f ids m Sends s n t
  | moved {t : σ} (agreementId : String) (now : Instant) (next : Negotiation) :
      n.transition m.turn now agreementId = .applied next none →
      (n.drawsId m.turn = true → ∃ k, agreementId = ids k) →
      f.Written s n next m.turn agreementId "" m.leaseHolder t → Turned f ids m Sends s n t
  | sent {t t' u : σ} (agreementId : String) (now : Instant) (next : Negotiation)
      (message : RemoteMessage) (peer : String) : f.Keeps s t →
      n.transition m.turn now agreementId = .applied next (some message) →
      (n.drawsId m.turn = true → ∃ k, agreementId = ids k) →
      Sends message t (.ok (.ok peer)) t' →
      f.Written t' n next m.turn agreementId peer m.leaseHolder u → Turned f ids m Sends s n u
  | failed {t t' u : σ} (message : RemoteMessage) (r : Except Fault DispatchResult)
      (cause : String) (next : Negotiation) : f.Keeps s t → (∀ peer, r ≠ .ok (.ok peer)) →
      Sends message t r t' → f.Written t' n next (.fail cause) "" "" m.leaseHolder u →
      Turned f ids m Sends s n u
  | waits {t t' u : σ} (message : RemoteMessage) (r : Except Fault DispatchResult) : f.Keeps s t →
      (∀ peer, r ≠ .ok (.ok peer)) → Sends message t r t' → f.Keeps t' u →
      Turned f ids m Sends s n u

theorem Turned.after {Sends : RemoteMessage → σ → Except Fault DispatchResult → σ → Prop}
    (h : f.Turned ids m Sends t n u) (hs : f.Keeps s t) : f.Turned ids m Sends s n u := by
  cases h with
  | passed hk => exact .passed (hs.trans hk)
  | moved agreementId now next ht hid hw => exact .moved agreementId now next ht hid (hw.after hs)
  | sent agreementId now next message peer hk ht hid hm hw =>
    exact .sent agreementId now next message peer (hs.trans hk) ht hid hm hw
  | failed message r cause next hk hr hm hw =>
    exact .failed message r cause next (hs.trans hk) hr hm hw
  | waits message r hk hr hm hu => exact .waits message r (hs.trans hk) hr hm hu

end Focus

namespace Manager

section Turns

variable (h : env.Lawful ids f)
include h

theorem release_ends (id : String) :
    Ends (m.release env id) s fun _ t => f.Released id s t := by
  have hb : Ends (env.breakLease id m.leaseHolder) s fun _ t => f.Released id s t := by
    refine (h.breakLease id m.leaseHolder s).mono ?_
    rintro r t ⟨hc, ht | ht⟩
    · exact Focus.Keeps.released ⟨hc, ht⟩
    · refine ⟨hc, by rw [ht], fun other ho => ?_⟩
      rw [ht, Table.get?_erase, if_neg ho]
  refine hb.bind ?_ fun _ _ ht => ht
  rintro (error | ⟨⟩) t ht
  · exact (h.report _ t).mono fun r u hu => ht.trans hu.1.released
  · exact ht

theorem conclude_ends {next : Negotiation} {event : Event} {now : Instant} {agreementId : String}
    {message : Option RemoteMessage} (peer : String) (hn : (f.store s).Includes n)
    (ht : n.transition event now agreementId = .applied next message) :
    Ends (m.conclude env n (next.correlate peer)) s fun _ t =>
      f.Written s n next event agreementId peer m.leaseHolder t := by
  refine (m.persist_ends h peer m.leaseHolder hn ht).bind ?_ fun _ _ hw => hw.written
  rintro (error | saved) t hw
  · exact (h.report _ t).mono fun r u hu => hw.written.before hu.1
  · exact hw.written

theorem concludeFailed_ends (cause : String) (hn : (f.store s).Includes n)
    (hs : n.state.isTerminal = false) :
    Ends (m.concludeFailed env n cause) s fun _ t =>
      ∃ next, f.Written s n next (.fail cause) "" "" m.leaseHolder t := by
  refine (transition_ends h n (.fail cause)).bind ?_ ?_
  · rintro outcome t ⟨ht, now, agreementId, hr, -⟩
    obtain rfl := Except.ok.inj hr
    have hfail : n.transition (.fail cause) now "" =
        .applied { n.enter .error now with errorDetail := cause } none := by
      simp [Negotiation.transition, hs]
    have hc := m.conclude_ends h "" (ht.store.symm ▸ hn) hfail
    rw [Negotiation.correlate_empty] at hc
    simp only [Negotiation.next_fail hs]
    exact hc.mono fun r u hu => ⟨_, hu.after ht⟩
  · rintro fault t ⟨-, now, agreementId, hr, -⟩
    cases hr

omit h in
theorem write_of_command {st st' : Store} {v w : Negotiation} {c : Command} {agreementId : String}
    (hm : st.Moved v c.event agreementId "" w st') : Store.Write st st' := by
  refine .moved v w c.event agreementId "" hm ?_ ?_
  · cases c <;> trivial
  · intro hd
    cases c <;> cases hd

theorem applyCommand_ends (c : QueuedCommand) :
    Ends (m.applyCommand env c) s fun _ t => f.Keeps s t ∨
      ∃ v w agreementId, f.Confined s t ∧ v.role = some m.role ∧
        (f.store s).Moved v c.command.event agreementId "" w (f.store t) := by
  refine (h.find c.command.target s).bind ?_ fun _ t ht => .inl ht.1
  rintro found t ⟨ht, hf⟩
  have reports {t : σ} (notice : Notice) (ht : f.Keeps s t) :
      Ends (env.report notice) t fun _ u => f.Keeps s u ∨
        ∃ v w agreementId, f.Confined s u ∧ v.role = some m.role ∧
          (f.store s).Moved v c.command.event agreementId "" w (f.store u) :=
    (h.report notice t).mono fun _ u hu => .inl (ht.trans hu.1)
  cases found with
  | none => exact reports _ ht
  | some v =>
    replace hf := (hf _ rfl).symm
    dsimp only
    split
    · exact reports _ ht
    · rename_i hrole
      refine (transition_ends h v c.command.event).bind ?_ fun _ u hu => .inl (ht.trans hu.1)
      rintro outcome u ⟨hu, now, agreementId, hr, -⟩
      replace hr := (Except.ok.inj hr).symm
      have hk := ht.trans hu
      cases outcome with
      | rejected => exact reports _ hk
      | unchanged => exact .inl hk
      | applied next message =>
        have hv : (f.store u).Includes v := by
          rw [hk.store]
          exact Store.includes_of_find? (Store.id_of_find? hf ▸ hf)
        have hp := m.persist_ends h "" "" hv hr
        rw [Negotiation.correlate_empty] at hp
        refine hp.bind ?_ ?_
        · rintro (error | saved) u' (⟨hu', -, hn⟩ | ⟨hw, hu', hm⟩)
          · dsimp only
            split
            · refine (h.report _).bind_ends fun _ t' ht' => ?_
              refine (update_quiet h m.role _ t').mono fun _ t'' ht'' => .inl ?_
              exact hk.trans (hu'.trans (ht'.trans ht''.1))
            · exact reports _ (hk.trans hu')
          · cases hw
          · exact absurd rfl (hn saved)
          · obtain rfl := Except.ok.inj (Except.ok.inj hw)
            refine (m.wake_quiet h u').mono fun _ t' ht' => .inr ?_
            have hc := hk.toConfined.trans (hu'.trans ht'.1.toConfined)
            refine ⟨v, v.successor next "", agreementId, hc, ?_, ?_⟩
            · simpa using hrole
            · exact ht'.1.store.symm ▸ hk.store ▸ hm
        · rintro fault u' (⟨hu', -⟩ | ⟨hw, -⟩)
          · exact .inl (hk.trans hu')
          · cases hw

theorem recordFailure_quiet (id : String) : f.Quiet (m.recordFailure env id) :=
  h.now.bind fun _ => (h.workload m.role).bind fun _ => (h.setWorkload m.role _).bind fun _ =>
    Focus.quiet_pure _

variable {Sends : RemoteMessage → σ → Except Fault DispatchResult → σ → Prop}

theorem deliver_ends {next : Negotiation} {now : Instant} {agreementId : String}
    {message : RemoteMessage} (hsend : ∀ message t, f.Keeps s t →
      Ends (send message) t fun r u => Sends message t r u ∧ (f.store u).Includes n)
    (ht : n.transition m.turn now agreementId = .applied next (some message))
    (hid : n.drawsId m.turn = true → ∃ k, agreementId = ids k) :
    Ends (m.deliver env send n next message) s fun _ t =>
      ∃ u, f.Turned ids m Sends s n u ∧ f.Released n.id u t := by
  have hs := (Negotiation.row_of_transition ht).isTerminal
  have fails {r : Except Fault DispatchResult} {t u : σ} (cause : String)
      (hr : ∀ peer, r ≠ .ok (.ok peer)) (hm : Sends message s r t) (hk : f.Keeps t u)
      (hu : (f.store u).Includes n) :
      Ends (m.concludeFailed env n cause >>= fun _ => pure false) u fun _ t =>
        ∃ u, f.Turned ids m Sends s n u ∧ f.Released n.id u t := by
    refine ((m.concludeFailed_ends h cause hu hs).mono ?_).andPure
    rintro _ t' ⟨next, hw⟩
    exact ⟨t', .failed message r cause next (.refl s) hr hm (hw.after hk),
      (Focus.Keeps.refl t').released⟩
  refine (hsend message s (.refl s)).bind ?_ ?_
  · rintro (peer | text | text) t ⟨hm, hi⟩
    · refine (update_quiet h m.role _).bind_ends fun _ t' ht' => ?_
      refine ((m.conclude_ends h peer (ht'.store.symm ▸ hi) ht).mono fun _ u hw => ?_).andPure
      exact ⟨u, .sent agreementId now next message peer (.refl s) ht hid hm (hw.after ht'),
        (Focus.Keeps.refl u).released⟩
    · refine (m.recordFailure_quiet h n.id).bind_ends fun (exhausted, attempts) t' ht' => ?_
      dsimp only
      split
      · refine (h.report _).bind_ends fun _ u hu => ?_
        have hk := ht'.trans hu
        exact fails _ (by simp) hm hk (hk.store.symm ▸ hi)
      · refine (h.report _).bind_ends fun _ u hu => ?_
        have hw : f.Turned ids m Sends s n u :=
          .waits message _ (.refl s) (by simp) hm (ht'.trans hu)
        exact ((m.release_ends h n.id).mono fun _ u' hu' => ⟨u, hw, hu'⟩).andPure
    · refine (update_quiet h m.role _).bind_ends fun _ t' ht' => ?_
      refine (h.report _).bind_ends fun _ u hu => ?_
      have hk := ht'.trans hu
      exact fails _ (by simp) hm hk (hk.store.symm ▸ hi)
  · rintro fault t ⟨hm, -⟩
    exact ⟨t, .waits message (.error fault) (.refl s) (by simp) hm (.refl t),
      (Focus.Keeps.refl t).released⟩

variable (hsend : ∀ message t, f.Keeps s t →
  Ends (send message) t fun r u => Sends message t r u ∧ (f.store u).Includes n)
include hsend

theorem advance_ends (hn : (f.store s).Includes n) :
    Ends (m.advance env send n) s fun _ t =>
      ∃ u, f.Turned ids m Sends s n u ∧ f.Released n.id u t := by
  have passes {t : σ} (notice : Notice) (ht : f.Keeps s t) :
      Ends (env.report notice >>= fun _ => m.release env n.id >>= fun _ => pure true) t
        fun _ u => ∃ t, f.Turned ids m Sends s n t ∧ f.Released n.id t u := by
    refine (h.report notice).bind_ends fun _ u hu => ?_
    exact ((m.release_ends h n.id).mono fun _ u' hu' => ⟨u, .passed (ht.trans hu), hu'⟩).andPure
  refine (transition_ends h n m.turn).bind ?_ ?_
  · rintro outcome t ⟨ht, now, agreementId, hr, hid⟩
    replace hr := (Except.ok.inj hr).symm
    have hi := ht.store.symm ▸ hn
    cases outcome with
    | rejected => exact passes _ ht
    | unchanged => exact passes _ ht
    | applied next message =>
      cases message with
      | some message =>
        refine (deliver_ends h (fun m u hu => hsend m u (ht.trans hu)) hr hid).mono ?_
        rintro r u ⟨t', hu, hr⟩
        exact ⟨t', hu.after ht, hr⟩
      | none =>
        have hc := m.conclude_ends h "" hi hr
        rw [Negotiation.correlate_empty] at hc
        refine (hc.mono fun _ u hw => ?_).andPure
        exact ⟨u, .moved agreementId now next hr hid (hw.after ht), (Focus.Keeps.refl u).released⟩
  · rintro fault t ⟨ht, -⟩
    exact ⟨t, .passed ht, (Focus.Keeps.refl t).released⟩

theorem processLeased_ends (hn : (f.store s).Includes n) :
    Ends (m.processLeased env send n) s fun _ t =>
      ∃ u, f.Turned ids m Sends s n u ∧ f.Released n.id u t := by
  refine (advance_ends h hsend hn).attempt ?_
  rintro (fault | settled) t ⟨u, hu, ht⟩
  · refine (h.report _).bind_ends fun _ t' ht' => ?_
    exact (m.release_ends h n.id).mono fun _ u' hu' => ⟨u, hu, ht.trans (ht'.released.trans hu')⟩
  · cases settled with
    | true => exact ⟨u, hu, ht⟩
    | false => exact (m.release_ends h n.id).mono fun _ u' hu' => ⟨u, hu, ht.trans hu'⟩

end Turns

/-- What each step of a round keeps up; it may speak of the leased records whose turn is still to
come. -/
structure Upholds (m : Manager) (env : Environment σ) (send : Transport σ)
    (I : List Negotiation → σ → Prop) : Prop where
  drop : ∀ ns others s, I ns s → others.Subperm ns → I others s
  now : ∀ ns s, I ns s → Ends env.now s fun _ t => I ns t
  workload : ∀ ns s, I ns s → Ends (env.workload m.role) s fun _ t => I ns t
  take : ∀ s, I [] s → Ends (m.takeCommands env) s fun _ t => I [] t
  command : ∀ c s, I [] s → Ends (m.applyCommand env c) s fun _ t => I [] t
  lease : ∀ state s, I [] s →
    Ends (env.lease state m.role m.options.batchSize m.leaseHolder) s fun r t =>
      match r with
      | .ok ns => I ns t
      | .error _ => I [] t
  release : ∀ n ns s, I (n :: ns) s → Ends (m.release env n.id) s fun _ t => I ns t
  turn : ∀ n ns s, I (n :: ns) s → Ends (m.processLeased env send n) s fun _ t => I ns t

structure Preserved (m : Manager) (env : Environment σ) (send : Transport σ) (f : Focus σ ρ)
    (I : List Negotiation → σ → Prop) : Prop where
  drop : ∀ ns others s, I ns s → others.Subperm ns → I others s
  quiet : ∀ ns s t, I ns s → f.Keeps s t → I ns t
  command : ∀ c s, I [] s → Ends (m.applyCommand env c) s fun _ t => I [] t
  lease : ∀ state s, I [] s →
    Ends (env.lease state m.role m.options.batchSize m.leaseHolder) s fun r t =>
      match r with
      | .ok ns => I ns t
      | .error _ => I [] t
  release : ∀ n ns s, I (n :: ns) s → Ends (m.release env n.id) s fun _ t => I ns t
  turn : ∀ n ns s, I (n :: ns) s → Ends (m.processLeased env send n) s fun _ t => I ns t

theorem flatten_filter_perm {α : Type} (number : α → Nat) (xs : List α) (count : Nat) :
    ((List.range count).map fun k => xs.filter fun x => number x = k).flatten.Perm
      (xs.filter fun x => number x < count) := by
  induction count with
  | zero => simp
  | succ count ih =>
    have hsplit := List.filter_append_perm (fun x => decide (number x < count))
      (xs.filter fun x => decide (number x < count + 1))
    have hlow : (xs.filter fun x => decide (number x < count + 1)).filter
        (fun x => decide (number x < count)) = xs.filter fun x => decide (number x < count) := by
      rw [List.filter_filter]
      apply List.filter_congr
      intro x _
      grind
    have hlast : (xs.filter fun x => decide (number x < count + 1)).filter
        (fun x => !decide (number x < count)) = xs.filter fun x => decide (number x = count) := by
      rw [List.filter_filter]
      apply List.filter_congr
      intro x _
      grind
    rw [hlow, hlast] at hsplit
    simp only [List.range_succ, List.map_append, List.map_cons, List.map_nil, List.flatten_append,
      List.flatten_cons, List.flatten_nil, List.append_nil]
    exact (ih.append_right _).trans hsplit

theorem deal_perm_filter {α : Type} (hands : Nat) (xs : List α) : (deal hands xs).flatten.Perm
    ((xs.zipIdx.filter fun x => x.2 % hands < hands).map Prod.fst) := by
  have he : (deal hands xs).flatten = (((List.range hands).map fun hand =>
      xs.zipIdx.filter fun x => x.2 % hands = hand).flatten).map Prod.fst := by
    simp only [deal, List.map_flatten, List.map_map, Function.comp_def]
  rw [he]
  exact (flatten_filter_perm (fun x => x.2 % hands) xs.zipIdx hands).map Prod.fst

theorem deal_subperm {α : Type} (hands : Nat) (xs : List α) :
    (deal hands xs).flatten.Subperm xs := by
  have hsub : ((xs.zipIdx.filter fun x => x.2 % hands < hands).map Prod.fst).Sublist
      (xs.zipIdx.map Prod.fst) := List.filter_sublist.map _
  rw [List.zipIdx_map_fst] at hsub
  exact (deal_perm_filter hands xs).subperm.trans hsub.subperm

theorem deal_perm {α : Type} {hands : Nat} (h : 0 < hands) (xs : List α) :
    (deal hands xs).flatten.Perm xs := by
  have hp := deal_perm_filter hands xs
  have hall : (xs.zipIdx.filter fun x => x.2 % hands < hands) = xs.zipIdx := by
    apply List.filter_eq_self.mpr
    intro x _
    simpa using Nat.mod_lt x.2 h
  rwa [hall, List.zipIdx_map_fst] at hp

section Dealt

variable {I : List Negotiation → σ → Prop}
  (drop : ∀ ns others s, I ns s → others.Subperm ns → I others s)
  (turn : ∀ n ns s, I (n :: ns) s → Ends (m.processLeased env send n) s fun _ t => I ns t)
include drop turn

theorem turns_ends {ns others : List Negotiation} (hs : I (ns ++ others) s) :
    Ends (each (m.processLeased env send) ns) s fun _ t => I others t := by
  refine each_ends (fun ns => I (ns ++ others)) ?_ ?_ hs
  · exact fun n ns t ht => drop _ _ t ht (List.sublist_cons_self n _).subperm
  · exact fun n ns t ht => turn n _ t ht

theorem processDue_ends {ns : List Negotiation} (hs : I ns s) :
    Ends (m.processDue env send ns) s fun _ t => I [] t := by
  unfold processDue
  split
  · exact turns_ends drop turn (by rwa [List.append_nil])
  · refine eachThenRaise_ends (fun hands => I hands.flatten) ?_ ?_
    · exact fun hand hands t ht => turns_ends drop turn ht
    · exact drop _ _ s hs (deal_subperm _ ns)

end Dealt

section Rounds

variable {I : List Negotiation → σ → Prop}

section Upholds

variable (hI : Upholds m env send I)
include hI

theorem Upholds.drainCommands (hs : I [] s) : Ends (m.drainCommands env) s fun _ t => I [] t := by
  refine (hI.take s hs).bind ?_ fun _ _ ht => ht
  intro batch t ht
  refine (each_ends (fun _ => I []) (fun _ _ _ h => h) ?_ ht).andPure
  exact fun c _ t ht => hI.command c t ht

theorem Upholds.isDue (now : Instant) {n : Negotiation} {ns : List Negotiation}
    (hs : I (n :: ns) s) : Ends (m.isDue env now n) s fun r t =>
      match r with
      | .ok true => I (n :: ns) t
      | .ok false => I ns t
      | .error _ => I [] t := by
  refine (hI.workload _ s hs).bind ?_ fun _ t ht => hI.drop _ [] t ht List.nil_subperm
  intro w t ht
  split
  · refine (hI.release n ns t ht).bind (fun _ _ hu => hu) ?_
    exact fun _ u hu => hI.drop ns [] u hu List.nil_subperm
  · exact ht

theorem Upholds.due (now : Instant) {ns : List Negotiation} (hs : I ns s) :
    Ends (select (m.isDue env now) ns) s fun r t =>
      match r with
      | .ok others => I others t
      | .error _ => I [] t := by
  have hselect : Ends (select (m.isDue env now) ns) s fun r t =>
      match r with
      | .ok others => I ([] ++ others ++ []) t
      | .error _ => I ([] ++ []) t := by
    refine select_ends (fun kept rest => I (kept ++ rest)) ?_ hs
    intro kept n ns t ht
    have hp : (n :: (kept ++ ns)).Subperm (kept ++ n :: ns) := List.perm_middle.symm.subperm
    refine (hI.isDue now (hI.drop _ _ t ht hp)).mono ?_
    rintro (fault | due) u hu
    · exact hu
    · cases due with
      | true => exact hI.drop _ _ u hu (by simpa using List.perm_middle.subperm)
      | false => exact hu
  simpa using hselect

theorem Upholds.processState (state : State) (hs : I [] s) :
    Ends (m.processState env send state) s fun _ t => I [] t := by
  refine (hI.lease state s hs).bind ?_ fun _ _ ht => ht
  intro leased t ht
  split
  · exact hI.drop _ _ t ht List.nil_subperm
  · refine (hI.now _ t ht).bind ?_ fun _ u hu => hI.drop _ [] u hu List.nil_subperm
    intro now u hu
    refine (hI.due now hu).bind ?_ fun _ _ h => h
    intro due u' hu'
    exact (processDue_ends hI.drop hI.turn hu').andPure

theorem Upholds.runOnce (hs : I [] s) : Ends (m.runOnce env send) s fun _ t => I [] t := by
  refine (hI.drainCommands hs).bind ?_ fun _ _ ht => ht
  intro commands t ht
  refine (total_ends (I []) ?_ ht).andPure
  exact fun state _ t ht => hI.processState state ht

end Upholds

variable (h : env.Lawful ids f)
include h

theorem takeCommands_quiet : f.Quiet (m.takeCommands env) :=
  (h.workload m.role).bind fun _ => (h.setWorkload m.role _).bind fun _ => Focus.quiet_pure _

variable (hI : Preserved m env send f I)
include hI

theorem Preserved.upholds : Upholds m env send I where
  drop := hI.drop
  now ns s hs := (h.now s).mono fun _ t ht => hI.quiet ns s t hs ht.1
  workload ns s hs := (h.workload m.role s).mono fun _ t ht => hI.quiet ns s t hs ht.1
  take s hs := (m.takeCommands_quiet h s).mono fun _ t ht => hI.quiet [] s t hs ht.1
  command := hI.command
  lease := hI.lease
  release := hI.release
  turn := hI.turn

theorem drainCommands_ends (hs : I [] s) : Ends (m.drainCommands env) s fun _ t => I [] t :=
  (hI.upholds h).drainCommands hs

theorem runOnce_ends (hs : I [] s) : Ends (m.runOnce env send) s fun _ t => I [] t :=
  (hI.upholds h).runOnce hs

end Rounds

end Manager

end ContractNegotiation
