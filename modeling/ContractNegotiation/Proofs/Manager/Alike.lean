import ContractNegotiation.Proofs.Manager.Round

/-! Managers that run alike in two environments. What an environment may differ in without its
manager noticing is said once, for the effects; every operation of the manager then gives the same
answers in both. -/

namespace ContractNegotiation

namespace Action

variable {σ τ α β γ δ : Type} {R : σ → τ → Prop} {S : α → β → Prop} {T : γ → δ → Prop}

/-- Begun in related states, the actions give related answers, or fail with the same fault, and end
in related states. -/
def Alike (R : σ → τ → Prop) (S : α → β → Prop) (x : Action σ α) (y : Action τ β) : Prop :=
  ∀ s t, R s t →
    match x s, y t with
    | .ok a s', .ok b t' => S a b ∧ R s' t'
    | .error fault s', .error fault' t' => fault = fault' ∧ R s' t'
    | _, _ => False

theorem alike_pure {a : α} {b : β} (h : S a b) : Alike R S (pure a) (pure b) :=
  fun _ _ hr => ⟨h, hr⟩

theorem alike_throw (fault : Fault) :
    Alike R S (throw fault : Action σ α) (throw fault : Action τ β) := fun _ _ hr => ⟨rfl, hr⟩

theorem Alike.bind {x : Action σ α} {y : Action τ β} {f : α → Action σ γ} {g : β → Action τ δ}
    (hx : Alike R S x y) (hf : ∀ a b, S a b → Alike R T (f a) (g b)) :
    Alike R T (x >>= f) (y >>= g) := by
  intro s t hr
  have h := hx s t hr
  simp only [Bind.bind, EStateM.bind]
  cases hxs : x s <;> cases hyt : y t <;> simp only [hxs, hyt] at h ⊢
  · exact hf _ _ h.1 _ _ h.2
  · exact h

theorem Alike.mono {S' : α → β → Prop} {x : Action σ α} {y : Action τ β} (hx : Alike R S x y)
    (h : ∀ a b, S a b → S' a b) : Alike R S' x y := by
  intro s t hr
  have hst := hx s t hr
  cases hxs : x s <;> cases hyt : y t <;> simp only [hxs, hyt] at hst ⊢
  · exact ⟨h _ _ hst.1, hst.2⟩
  · exact hst

theorem Alike.after {x : Action σ α} {y : Action τ β} {s : σ} {t : τ} (hx : Alike R S x y)
    (hr : R s t) : R (x.after s) (y.after t) := by
  have h := hx s t hr
  unfold Action.after
  cases hxs : x s <;> cases hyt : y t <;> simp only [hxs, hyt] at h ⊢
  · exact h.2
  · exact h.2

theorem Alike.yields {x : Action σ α} {y : Action τ β} {s : σ} {t : τ} {P : β → τ → Prop}
    (hx : Alike R S x y) (hr : R s t) (hy : Yields y t P) :
    Yields x s fun a s' => ∃ b t', S a b ∧ R s' t' ∧ P b t' := by
  obtain ⟨b, t', hyt, hp⟩ := hy
  have h := hx s t hr
  cases hxs : x s <;> simp only [hxs, hyt] at h
  exact ⟨_, _, hxs, b, t', h.1, h.2, hp⟩

section Same

variable {x : Action σ α} {y : Action τ α}

theorem Alike.andThen {f : α → Action σ γ} {g : α → Action τ δ} (hx : Alike R Eq x y)
    (hf : ∀ a, Alike R T (f a) (g a)) : Alike R T (x >>= f) (y >>= g) := by
  apply hx.bind
  rintro a _ rfl
  exact hf a

theorem Alike.attempt (hx : Alike R Eq x y) : Alike R Eq (attempt x) (attempt y) := by
  intro s t hr
  have h := hx s t hr
  simp only [Action.attempt]
  cases hxs : x s <;> cases hyt : y t <;> simp only [hxs, hyt] at h ⊢
  · exact ⟨congrArg Except.ok h.1, h.2⟩
  · exact ⟨congrArg Except.error h.1, h.2⟩

theorem Alike.outcome {s : σ} {t : τ} (hx : Alike R Eq x y) (hr : R s t) :
    x.outcome s = y.outcome t := by
  have h := hx s t hr
  unfold Action.outcome
  cases hxs : x s <;> cases hyt : y t <;> simp only [hxs, hyt] at h ⊢
  · exact congrArg Except.ok h.1
  · exact congrArg Except.error h.1

theorem Alike.map (hx : Alike R Eq x y) (φ : α → γ) : Alike R Eq (φ <$> x) (φ <$> y) := by
  intro s t hr
  have h := hx s t hr
  simp only [Functor.map, EStateM.map]
  cases hxs : x s <;> cases hyt : y t <;> simp only [hxs, hyt] at h ⊢
  · exact ⟨congrArg φ h.1, h.2⟩
  · exact h

theorem alike_each {f : α → Action σ Unit} {g : α → Action τ Unit} {xs : List α}
    (h : ∀ x ∈ xs, Alike R Eq (f x) (g x)) : Alike R Eq (each f xs) (each g xs) := by
  induction xs with
  | nil => exact alike_pure rfl
  | cons x xs ih =>
    apply (h x (List.mem_cons_self ..)).andThen
    intro _
    exact ih fun x hx => h x (List.mem_cons_of_mem _ hx)

theorem alike_eachThenRaise {f : α → Action σ Unit} {g : α → Action τ Unit} {xs : List α}
    (h : ∀ x ∈ xs, Alike R Eq (f x) (g x)) :
    Alike R Eq (eachThenRaise f xs) (eachThenRaise g xs) := by
  induction xs with
  | nil => exact alike_pure rfl
  | cons x xs ih =>
    have hrest := ih fun x hx => h x (List.mem_cons_of_mem _ hx)
    apply (h x (List.mem_cons_self ..)).attempt.andThen
    rintro (fault | _)
    · exact hrest.attempt.andThen fun _ => alike_throw fault
    · exact hrest

theorem alike_total {f : α → Action σ Nat} {g : α → Action τ Nat} {xs : List α}
    (h : ∀ x ∈ xs, Alike R Eq (f x) (g x)) : Alike R Eq (total f xs) (total g xs) := by
  induction xs with
  | nil => exact alike_pure rfl
  | cons x xs ih =>
    apply (h x (List.mem_cons_self ..)).andThen
    intro k
    apply (ih fun x hx => h x (List.mem_cons_of_mem _ hx)).andThen
    exact fun _ => alike_pure rfl

theorem alike_select {keep : α → Action σ Bool} {keep' : α → Action τ Bool} {xs : List α}
    (h : ∀ x ∈ xs, Alike R Eq (keep x) (keep' x)) :
    Alike R (fun kept kept' => kept = kept' ∧ ∀ x ∈ kept, x ∈ xs) (select keep xs)
      (select keep' xs) := by
  induction xs with
  | nil => exact alike_pure ⟨rfl, fun _ hx => hx⟩
  | cons x xs ih =>
    apply (h x (List.mem_cons_self ..)).andThen
    intro kept
    apply (ih fun x hx => h x (List.mem_cons_of_mem _ hx)).bind
    rintro others _ ⟨rfl, hsub⟩
    refine alike_pure ⟨rfl, fun y hy => ?_⟩
    cases kept with
    | true =>
      rcases List.mem_cons.mp hy with rfl | hy
      · exact List.mem_cons_self ..
      · exact List.mem_cons_of_mem _ (hsub y hy)
    | false => exact List.mem_cons_of_mem _ (hsub y hy)

end Same

end Action

open ContractNegotiation.Action

variable {σ τ : Type}

/-- Two environments that are the same to a manager. It may write under the ids that are `Own` and
insert under those that are `Drawn`, and it asks for correlation ids that are `Asked`. A record of
another role may be found in one of them only if the log is of no account. -/
structure Environment.Alike (m : Manager) (Own Drawn Asked : String → Prop) (unlogged : Prop)
    (R : σ → τ → Prop) (env : Environment σ) (env' : Environment τ) : Prop where
  now : Action.Alike R Eq env.now env'.now
  freshId : Action.Alike R (fun a b => a = b ∧ Drawn a) env.freshId env'.freshId
  report : ∀ notice, Action.Alike R Eq (env.report notice) (env'.report notice)
  report_any : unlogged → ∀ notice notice',
    Action.Alike R Eq (env.report notice) (env'.report notice')
  find : ∀ id, Action.Alike R
    (fun a b => m.own a = m.own b ∧ (∀ v, m.own a = some v → Own v.id) ∧ (a = b ∨ unlogged))
    (env.find id) (env'.find id)
  findByCorrelation : ∀ c, Asked c → Action.Alike R
    (fun a b => m.own a = m.own b ∧ ∀ v, m.own a = some v → Own v.id)
    (env.findByCorrelation c) (env'.findByCorrelation c)
  save_first : ∀ n, Drawn n.id → n.role = some m.role → n.stateCount = 0 →
    Action.Alike R Eq (env.save n "") (env'.save n "")
  save : ∀ n holder, Own n.id → n.role = some m.role →
    Action.Alike R Eq (env.save n holder) (env'.save n holder)
  lease : ∀ state, Action.Alike R
    (fun ns ns' => ns = ns' ∧ ∀ v ∈ ns, Own v.id ∧ v.role = some m.role)
    (env.lease state m.role m.options.batchSize m.leaseHolder)
    (env'.lease state m.role m.options.batchSize m.leaseHolder)
  breakLease : ∀ id, Own id →
    Action.Alike R Eq (env.breakLease id m.leaseHolder) (env'.breakLease id m.leaseHolder)
  workload : Action.Alike R Eq (env.workload m.role) (env'.workload m.role)
  setWorkload : ∀ w, Action.Alike R Eq (env.setWorkload m.role w) (env'.setWorkload m.role w)

namespace Manager

variable {m : Manager} {Own Drawn Asked : String → Prop} {unlogged : Prop} {R : σ → τ → Prop}
  {env : Environment σ} {env' : Environment τ} {v next : Negotiation}

section Effects

variable (h : env.Alike m Own Drawn Asked unlogged R env')
include h

theorem freshId_alike : Alike R Eq env.freshId env'.freshId := h.freshId.mono fun _ _ h => h.1

theorem transition_alike (v : Negotiation) (event : Event) :
    Alike R (fun a b => a = b ∧ ∀ next message, a = .applied next message → v.Continues next)
      (env.transition v event) (env'.transition v event) := by
  have applied (now : Instant) (agreementId : String) (next : Negotiation)
      (message : Option RemoteMessage)
      (ht : v.transition event now agreementId = .applied next message) : v.Continues next :=
    (Negotiation.row_of_transition ht).continues
  apply h.now.andThen
  intro now
  split
  · exact (freshId_alike h).andThen fun _ => alike_pure ⟨rfl, applied now _⟩
  · exact alike_pure ⟨rfl, applied now _⟩

theorem modify_alike (f : Workload → Workload) :
    Alike R Eq (m.modify env f) (m.modify env' f) := h.workload.andThen fun _ => h.setWorkload _

theorem wake_alike : Alike R Eq (m.wake env) (m.wake env') := modify_alike h _

theorem enqueue_alike (c : Command) : Alike R Eq (m.enqueue env c) (m.enqueue env' c) :=
  (h.report _).andThen fun _ => modify_alike h _

theorem persist_alike (previous : Negotiation) (holder : String) (hid : Own next.id)
    (hr : next.role = some m.role) :
    Alike R Eq (m.persist env previous next holder) (m.persist env' previous next holder) := by
  apply (h.save next holder hid hr).andThen
  rintro (error | saved)
  · exact alike_pure rfl
  · apply (modify_alike h _).andThen
    intro _
    exact (h.report _).andThen fun _ => alike_pure rfl

theorem findOwned_alike (id : String) : Alike R (fun a b => a = b ∧
    ∀ v, a = some v → Own v.id ∧ v.role = some m.role) (m.findOwned env id)
      (m.findOwned env' id) := by
  apply (h.find id).bind
  rintro a b ⟨hab, hown, -⟩
  exact alike_pure ⟨hab, fun v hv => ⟨hown v hv, (m.own_eq_some.mp hv).2⟩⟩

theorem findCorrelated_alike {c : String} (hc : Asked c) : Alike R (fun a b => a = b ∧
    ∀ v, a = some v → Own v.id ∧ v.role = some m.role) (m.findCorrelated env c)
      (m.findCorrelated env' c) := by
  apply (h.findByCorrelation c hc).bind
  rintro a b ⟨hab, hown⟩
  exact alike_pure ⟨hab, fun v hv => ⟨hown v hv, (m.own_eq_some.mp hv).2⟩⟩

theorem apply_alike (event : Event) (hid : Own v.id) (hr : v.role = some m.role) :
    Alike R Eq (m.apply env v event) (m.apply env' v event) := by
  apply (transition_alike h v event).bind
  rintro outcome _ ⟨rfl, hnext⟩
  cases outcome with
  | rejected => exact alike_pure rfl
  | unchanged => exact alike_pure rfl
  | applied next message =>
    have hc := hnext next message rfl
    apply (persist_alike h v "" (hc.id ▸ hid) (hc.role.trans hr)).andThen
    rintro (error | saved)
    · exact alike_pure rfl
    · exact (wake_alike h).andThen fun _ => alike_pure rfl

theorem applyCorrelated_alike {c : String} (event : Event) (hc : Asked c) :
    Alike R Eq (m.applyCorrelated env c event) (m.applyCorrelated env' c event) := by
  apply (findCorrelated_alike h hc).bind
  rintro found _ ⟨rfl, hfound⟩
  cases found with
  | none => exact alike_pure rfl
  | some v =>
    obtain ⟨hid, hr⟩ := hfound v rfl
    exact apply_alike h event hid hr

theorem insert_alike (n : Negotiation) (hn : Drawn n.id) :
    Alike R Eq (m.insert env n) (m.insert env' n) := by
  apply h.now.andThen
  intro now
  apply (h.save_first { n with
    role := some m.role
    stateCount := 0
    stateTimestamp := now.toMillis
    createdAt := now.toMillis } hn rfl rfl).andThen
  rintro (error | saved)
  · exact alike_pure rfl
  · apply (h.report _).andThen
    intro _
    exact (wake_alike h).andThen fun _ => alike_pure rfl

theorem identified_alike (offer : Offer) :
    Alike R Eq (identified env offer) (identified env' offer) := by
  unfold identified
  split
  · exact (freshId_alike h).andThen fun _ => alike_pure rfl
  · exact alike_pure rfl

theorem initiate_alike (request : ContractRequest) :
    Alike R Eq (m.initiate env request) (m.initiate env' request) := by
  unfold initiate
  split
  · exact alike_pure rfl
  · rename_i offer _
    split
    · exact alike_pure rfl
    · apply h.freshId.bind
      rintro id _ ⟨rfl, hid⟩
      apply (identified_alike h offer).andThen
      intro offer
      exact insert_alike h _ hid

theorem agreed_alike {c : String} (agreement : Agreement) (policy : Policy) (hc : Asked c) :
    Alike R Eq (m.agreed env c agreement policy) (m.agreed env' c agreement policy) := by
  unfold agreed
  split
  · exact alike_pure rfl
  · exact applyCorrelated_alike h _ hc

theorem requested_alike (token : ClaimToken) (message : RequestMessage)
    (hc : Asked message.processId) :
    Alike R Eq (m.requested env token message) (m.requested env' token message) := by
  unfold requested
  split
  · exact alike_pure rfl
  · split
    · exact alike_pure rfl
    · rename_i offer _
      apply (findCorrelated_alike h hc).bind
      rintro found _ ⟨rfl, hfound⟩
      cases found with
      | some existing =>
        obtain ⟨hid, hr⟩ := hfound existing rfl
        dsimp only
        split
        · exact alike_pure rfl
        · exact apply_alike h _ hid hr
      | none =>
        dsimp only
        generalize (if token.clientId ≠ "" then token.clientId else message.connectorId) = consumer
        split
        · exact alike_pure rfl
        · split
          · exact alike_pure rfl
          · apply h.freshId.bind
            rintro id _ ⟨rfl, hid⟩
            exact insert_alike h _ hid

theorem counterOffer_alike (id : String) (offer : Offer) :
    Alike R Eq (m.counterOffer env id offer) (m.counterOffer env' id offer) := by
  apply (findOwned_alike h id).bind
  rintro found _ ⟨rfl, hfound⟩
  cases found with
  | none => exact alike_pure rfl
  | some v =>
    obtain ⟨hid, hr⟩ := hfound v rfl
    apply (identified_alike h offer).andThen
    intro offer
    exact apply_alike h _ hid hr

end Effects

section Rounds

variable (h : env.Alike m Own Drawn Asked unlogged R env')
include h

theorem release_alike {id : String} (hid : Own id) :
    Alike R Eq (m.release env id) (m.release env' id) := by
  apply (h.breakLease id hid).andThen
  rintro (error | _)
  · exact h.report _
  · exact alike_pure rfl

omit h in
theorem own_eq_none : m.own (some v) = none ↔ v.role ≠ some m.role := by
  simp [own, Option.filter_eq_none_iff]

theorem applyCommand_alike (c : QueuedCommand) :
    Alike R Eq (m.applyCommand env c) (m.applyCommand env' c) := by
  apply (h.find c.command.target).bind
  rintro found found' ⟨hown, hid, hsame⟩
  cases found with
  | none =>
    cases found' with
    | none => exact h.report _
    | some w =>
      dsimp only
      rw [if_pos (own_eq_none.mp hown.symm)]
      exact h.report_any (hsame.resolve_left (by simp)) _ _
  | some v =>
    dsimp only
    split
    · rename_i hforeign
      cases found' with
      | none => exact h.report_any (hsame.resolve_left (by simp)) _ _
      | some w =>
        dsimp only
        rw [if_pos (own_eq_none.mp (hown.symm.trans (own_eq_none.mpr hforeign)))]
        exact h.report _
    · rename_i hr
      replace hr := not_not.mp hr
      have hv : m.own (some v) = some v := m.own_eq_some.mpr ⟨rfl, hr⟩
      obtain ⟨rfl, -⟩ := m.own_eq_some.mp (hown.symm.trans hv)
      dsimp only
      rw [if_neg (not_not.mpr hr)]
      apply (transition_alike h v c.command.event).bind
      rintro outcome _ ⟨rfl, hnext⟩
      cases outcome with
      | rejected => exact h.report _
      | unchanged => exact alike_pure rfl
      | applied next message =>
        have hc := hnext next message rfl
        apply (persist_alike h v "" (hc.id ▸ hid v hv) (hc.role.trans hr)).andThen
        rintro (error | saved)
        · dsimp only
          split
          · exact (h.report _).andThen fun _ => modify_alike h _
          · exact h.report _
        · exact wake_alike h

theorem takeCommands_alike : Alike R Eq (m.takeCommands env) (m.takeCommands env') := by
  apply h.workload.andThen
  intro w
  exact (h.setWorkload _).andThen fun _ => alike_pure rfl

theorem drainCommands_alike : Alike R Eq (m.drainCommands env) (m.drainCommands env') := by
  apply (takeCommands_alike h).andThen
  intro batch
  apply (alike_each fun c _ => applyCommand_alike h c).andThen
  exact fun _ => alike_pure rfl

theorem recordFailure_alike (id : String) :
    Alike R Eq (m.recordFailure env id) (m.recordFailure env' id) := by
  apply h.now.andThen
  intro now
  apply h.workload.andThen
  intro w
  exact (h.setWorkload _).andThen fun _ => alike_pure rfl

section Turns

variable {n : Negotiation} (hid : Own n.id) (hr : n.role = some m.role)
include hid hr

theorem conclude_alike (hc : n.Continues next) (peer : String) :
    Alike R Eq (m.conclude env n (next.correlate peer))
      (m.conclude env' n (next.correlate peer)) := by
  have hid : Own (next.correlate peer).id := by
    rw [Negotiation.correlate_eq]
    exact hc.id ▸ hid
  have hr : (next.correlate peer).role = some m.role := by
    rw [Negotiation.correlate_eq]
    exact hc.role.trans hr
  apply (persist_alike h n m.leaseHolder hid hr).andThen
  rintro (error | saved)
  · exact h.report _
  · exact alike_pure rfl

theorem concludeFailed_alike (cause : String) :
    Alike R Eq (m.concludeFailed env n cause) (m.concludeFailed env' n cause) := by
  apply (transition_alike h n (.fail cause)).bind
  rintro outcome _ ⟨rfl, hnext⟩
  have hc : n.Continues (outcome.next n) := by
    cases outcome with
    | applied next message => exact hnext next message rfl
    | _ => exact .refl n
  have hconclude := conclude_alike h hid hr hc ""
  rwa [Negotiation.correlate_empty] at hconclude

variable {send : Transport σ} {send' : Transport τ}
  (hsend : ∀ message, Alike R Eq (send message) (send' message))
include hsend

theorem deliver_alike (hc : n.Continues next) (message : RemoteMessage) :
    Alike R Eq (m.deliver env send n next message) (m.deliver env' send' n next message) := by
  apply (hsend message).andThen
  rintro (peer | text | text)
  · apply (modify_alike h _).andThen
    intro _
    exact (conclude_alike h hid hr hc peer).andThen fun _ => alike_pure rfl
  · apply (recordFailure_alike h n.id).andThen
    rintro ⟨exhausted, attempts⟩
    dsimp only
    split
    · apply (h.report _).andThen
      intro _
      exact (concludeFailed_alike h hid hr _).andThen fun _ => alike_pure rfl
    · apply (h.report _).andThen
      intro _
      exact (release_alike h hid).andThen fun _ => alike_pure rfl
  · apply (modify_alike h _).andThen
    intro _
    apply (h.report _).andThen
    intro _
    exact (concludeFailed_alike h hid hr _).andThen fun _ => alike_pure rfl

theorem advance_alike :
    Alike R Eq (m.advance env send n) (m.advance env' send' n) := by
  apply (transition_alike h n m.turn).bind
  rintro outcome _ ⟨rfl, hnext⟩
  cases outcome with
  | applied next message =>
    have hc := hnext next message rfl
    cases message with
    | some message => exact deliver_alike h hid hr hsend hc message
    | none =>
      have hconclude := conclude_alike h hid hr hc ""
      rw [Negotiation.correlate_empty] at hconclude
      exact hconclude.andThen fun _ => alike_pure rfl
  | rejected =>
    apply (h.report _).andThen
    intro _
    exact (release_alike h hid).andThen fun _ => alike_pure rfl
  | unchanged =>
    apply (h.report _).andThen
    intro _
    exact (release_alike h hid).andThen fun _ => alike_pure rfl

theorem processLeased_alike :
    Alike R Eq (m.processLeased env send n) (m.processLeased env' send' n) := by
  apply (advance_alike h hid hr hsend).attempt.andThen
  rintro (fault | settled)
  · apply (h.report _).andThen
    intro _
    exact release_alike h hid
  · cases settled with
    | true => exact alike_pure rfl
    | false => exact release_alike h hid

end Turns

theorem isDue_alike (now : Instant) {n : Negotiation} (hid : Own n.id) :
    Alike R Eq (m.isDue env now n) (m.isDue env' now n) := by
  apply h.workload.andThen
  intro w
  split
  · exact (release_alike h hid).andThen fun _ => alike_pure rfl
  · exact alike_pure rfl

variable {send : Transport σ} {send' : Transport τ}
  (hsend : ∀ message, Alike R Eq (send message) (send' message))
include hsend

theorem processDue_alike {due : List Negotiation}
    (hdue : ∀ n ∈ due, Own n.id ∧ n.role = some m.role) :
    Alike R Eq (m.processDue env send due) (m.processDue env' send' due) := by
  have turns (ns : List Negotiation) (hns : ∀ n ∈ ns, n ∈ due) :
      Alike R Eq (each (m.processLeased env send) ns) (each (m.processLeased env' send') ns) := by
    apply alike_each
    intro n hn
    obtain ⟨hid, hr⟩ := hdue n (hns n hn)
    exact processLeased_alike h hid hr hsend
  unfold processDue
  split
  · exact turns due fun _ hn => hn
  · apply alike_eachThenRaise
    intro hand hhand
    apply turns
    intro n hn
    exact (deal_subperm _ due).subset (List.mem_flatten.mpr ⟨hand, hhand, hn⟩)

theorem processState_alike (state : State) :
    Alike R Eq (m.processState env send state) (m.processState env' send' state) := by
  apply (h.lease state).bind
  rintro leased _ ⟨rfl, hleased⟩
  split
  · exact alike_pure rfl
  · apply h.now.andThen
    intro now
    apply (alike_select fun n hn => isDue_alike h now (hleased n hn).1).bind
    rintro due _ ⟨rfl, hdue⟩
    apply (processDue_alike h hsend fun n hn => hleased n (hdue n hn)).andThen
    exact fun _ => alike_pure rfl

theorem runOnce_alike : Alike R Eq (m.runOnce env send) (m.runOnce env' send') := by
  apply (drainCommands_alike h).andThen
  intro commands
  apply (alike_total fun state _ => processState_alike h hsend state).andThen
  exact fun _ => alike_pure rfl

end Rounds

end Manager

end ContractNegotiation
