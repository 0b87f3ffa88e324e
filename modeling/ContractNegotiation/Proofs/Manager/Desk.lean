import ContractNegotiation.Proofs.Journal

namespace ContractNegotiation

open ContractNegotiation.Action

def Event.isSynchronous : Event → Bool
  | requestReceived _ | offerReceived _ | counterOffer _ | agreementReceived .. => true
  | verificationReceived | finalizationReceived | terminationReceived _ => true
  | process .. | cancel | decline _ | fail _ => false

theorem Negotiation.drawsId_of_isSynchronous {n : Negotiation} {event : Event}
    (h : event.isSynchronous = true) : n.drawsId event = false := by
  cases event <;> first | rfl | cases h

theorem Negotiation.drawsId_command (n : Negotiation) (c : Command) :
    n.drawsId c.event = false := by
  cases c <;> rfl

namespace Desk

def forget (d : Desk) (id : String) : Desk := { d with work := d.work.clearRetries id }

def mapQueue (d : Desk) (f : CommandQueue → CommandQueue) : Desk :=
  { d with work := d.work.mapQueue f }

def countFailure (d : Desk) (b : Backoff) (id : String) : Bool × Desk :=
  let (exhausted, retries) := d.work.retries.recordFailure b id d.now
  (exhausted, { d with work := { d.work with retries } })

inductive Persists (d : Desk) (next : Negotiation) (holder : String) :
    Except StoreError Negotiation → Desk → Prop where
  | refused (e : StoreError) (d' : Desk) : d.Saves next holder (.error e) d' →
      Persists d next holder (.error e) d'
  | written (w : Negotiation) (d' : Desk) : d.Saves next holder (.ok w) d' →
      Persists d next holder (.ok w) (d'.forget w.id)

theorem Persists.moved {d d' : Desk} {v next w : Negotiation} {message : Option RemoteMessage}
    {key : String} {event : Event} {now : Instant} (hv : d.store.find? key = some v)
    (ht : v.transition event now "" = .applied next message)
    (hp : d.Persists next "" (.ok w) d') :
    d.store.Moved v event "" "" w d'.store ∧ w = { next with stateCount := v.stateCount + 1 } := by
  have hincludes := Store.includes_of_find? (Store.id_of_find? hv ▸ hv)
  cases hp with
  | written _ d' hs =>
    have hs := hs.saved
    rw [← Negotiation.correlate_empty next] at hs
    obtain ⟨hm, hw⟩ := hincludes.moved ht hs
    refine ⟨hm, ?_⟩
    rw [hw, Negotiation.successor, Negotiation.correlate_empty]

inductive Served (role : Role) (d : Desk) : Desk → Prop where
  | idle : Served role d d
  | refused (next : Negotiation) (e : StoreError) (d' : Desk) :
      d.Persists next "" (.error e) d' → Served role d d'
  | moved (v next w : Negotiation) (event : Event) (message : Option RemoteMessage) (d' : Desk) :
      v ∈ d.store.records → v.role = some role → event.isSynchronous = true →
      v.transition event d.now "" = .applied next message → d.Persists next "" (.ok w) d' →
      Served role d (d'.mapQueue .wake)
  | opened (n w : Negotiation) (d' : Desk) : n.role = some role → n.stateCount = 0 →
      d.Saves n "" (.ok w) d' → Served role d (d'.mapQueue .wake)

inductive Tried (m : Manager) (d : Desk) (c : QueuedCommand) : Desk → Prop where
  | missing : d.store.find? c.command.target = none → Tried m d c d
  | foreign (v : Negotiation) : d.store.find? c.command.target = some v → v.role ≠ some m.role →
      Tried m d c d
  | rejected (v : Negotiation) : d.store.find? c.command.target = some v → v.role = some m.role →
      v.transition c.command.event d.now "" = .rejected → Tried m d c d
  | written (v next w : Negotiation) (message : Option RemoteMessage) (d' : Desk) :
      d.store.find? c.command.target = some v → v.role = some m.role →
      v.transition c.command.event d.now "" = .applied next message →
      d.Persists next "" (.ok w) d' → Tried m d c (d'.mapQueue .wake)
  | requeued (v next : Negotiation) (message : Option RemoteMessage) (e : StoreError) (d' : Desk) :
      d.store.find? c.command.target = some v → v.role = some m.role →
      v.transition c.command.event d.now "" = .applied next message →
      d.Persists next "" (.error e) d' → e.isLostRace = true →
      c.attempts + 1 < m.options.commandMaxAttempts → Tried m d c (d'.mapQueue (·.requeue c))
  | dropped (v next : Negotiation) (message : Option RemoteMessage) (e : StoreError) (d' : Desk) :
      d.store.find? c.command.target = some v → v.role = some m.role →
      v.transition c.command.event d.now "" = .applied next message →
      d.Persists next "" (.error e) d' →
      ¬ (e.isLostRace = true ∧ c.attempts + 1 < m.options.commandMaxAttempts) → Tried m d c d'

inductive Turned (m : Manager)
    (Sends : RemoteMessage → Desk → Except Fault DispatchResult → Desk → Prop) (d : Desk)
    (n : Negotiation) : Desk → Prop where
  | passed : Turned m Sends d n d
  | silent (agreementId : String) (next : Negotiation) (answer : Except StoreError Negotiation)
      (d' : Desk) : n.transition m.turn d.now agreementId = .applied next none →
      d.Persists next m.leaseHolder answer d' → Turned m Sends d n d'
  | threw (agreementId : String) (next : Negotiation) (message : RemoteMessage) (fault : Fault)
      (d' : Desk) : n.transition m.turn d.now agreementId = .applied next (some message) →
      Sends message d (.error fault) d' → Turned m Sends d n d'
  | acknowledged (agreementId : String) (next : Negotiation) (message : RemoteMessage)
      (peer : String) (answer : Except StoreError Negotiation) (d₁ d₂ : Desk) :
      n.transition m.turn d.now agreementId = .applied next (some message) →
      Sends message d (.ok (.ok peer)) d₁ →
      (d₁.forget n.id).Persists (next.correlate peer) m.leaseHolder answer d₂ →
      Turned m Sends d n d₂
  | waits (agreementId : String) (next : Negotiation) (message : RemoteMessage) (text : String)
      (d₁ d₂ : Desk) : n.transition m.turn d.now agreementId = .applied next (some message) →
      Sends message d (.ok (.transient text)) d₁ →
      d₁.countFailure m.options.backoff n.id = (false, d₂) → Turned m Sends d n d₂
  | exhausted (agreementId : String) (next : Negotiation) (message : RemoteMessage)
      (text cause : String) (answer : Except StoreError Negotiation) (d₁ d₂ d₃ : Desk) :
      n.transition m.turn d.now agreementId = .applied next (some message) →
      Sends message d (.ok (.transient text)) d₁ →
      d₁.countFailure m.options.backoff n.id = (true, d₂) →
      d₂.Persists ((n.transition (.fail cause) d₂.now "").next n) m.leaseHolder answer d₃ →
      Turned m Sends d n d₃
  | fatal (agreementId : String) (next : Negotiation) (message : RemoteMessage)
      (text : String) (answer : Except StoreError Negotiation) (d₁ d₂ : Desk) :
      n.transition m.turn d.now agreementId = .applied next (some message) →
      Sends message d (.ok (.fatal text)) d₁ →
      (d₁.forget n.id).Persists ((n.transition (.fail text) d₁.now "").next n) m.leaseHolder
        answer d₂ →
      Turned m Sends d n d₂

def waiting (d : Desk) : List QueuedCommand := d.work.queue.waiting

def Over (m : Manager) (n : Negotiation) (r : Except Fault Bool) (d d' : Desk) : Prop :=
  match r with
  | .ok true => d' = d.breakLease n.id m.leaseHolder
  | _ => d' = d

end Desk

namespace Manager

inductive Synchronous {σ : Type} (m : Manager) (env : Environment σ) :
    Action σ (Except Refusal Negotiation) → Prop where
  | initiate (request : ContractRequest) : Synchronous m env (m.initiate env request)
  | offered (correlationId : String) (offer : Offer) :
      Synchronous m env (m.offered env correlationId offer)
  | agreed (correlationId : String) (agreement : Agreement) (policy : Policy) :
      Synchronous m env (m.agreed env correlationId agreement policy)
  | finalized (correlationId : String) : Synchronous m env (m.finalized env correlationId)
  | requested (token : ClaimToken) (message : RequestMessage) :
      Synchronous m env (m.requested env token message)
  | counterOffer (id : String) (offer : Offer) : Synchronous m env (m.counterOffer env id offer)
  | verified (correlationId : String) : Synchronous m env (m.verified env correlationId)
  | terminated (correlationId reason : String) :
      Synchronous m env (m.terminated env correlationId reason)

variable {σ : Type} {desk : σ → Desk} {env : Environment σ} {s : σ} {m : Manager}
  {send : Transport σ} {n : Negotiation}

section

variable (h : env.Faithful m.role desk)
include h

theorem update_acts (f : Workload → Workload) :
    Acts desk (env.update m.role f) fun d => { d with work := f d.work } := by
  intro s
  refine h.workload.bind_ends fun t ht => ?_
  rw [← ht]
  exact h.setWorkload _ t

theorem forget_acts (id : String) :
    Acts desk (m.modify env (·.clearRetries id)) (·.forget id) := update_acts h _

theorem transition_reads {event : Event} (he : n.drawsId event = false) :
    Reads desk (env.transition n event) fun d => n.transition event d.now "" := by
  intro s
  refine h.now.bind_ends fun t ht => ?_
  rw [if_neg (by simp [he])]
  exact ⟨rfl, ht⟩

theorem transition_desk (event : Event) : Ends (env.transition n event) s fun r t =>
    (∃ agreementId, r = .ok (n.transition event (desk s).now agreementId)) ∧ desk t = desk s := by
  refine h.now.bind_ends fun t ht => ?_
  split
  · refine h.freshId.bind_ends fun agreementId u hu => ?_
    exact ⟨⟨agreementId, rfl⟩, hu.trans ht⟩
  · exact ⟨⟨"", rfl⟩, ht⟩

theorem persist_desk (previous next : Negotiation) (holder : String) :
    Ends (m.persist env previous next holder) s fun r t =>
      ∃ answer, r = .ok answer ∧ (desk s).Persists next holder answer (desk t) := by
  refine (h.save next holder s).bind ?_ ?_
  · rintro (error | w) t ⟨answer, hr, hsaves⟩
    · cases hr
      exact ⟨_, rfl, .refused error _ hsaves⟩
    · cases hr
      refine (forget_acts h w.id).bind_ends fun _ u hu => ?_
      refine (h.report _).bind_ends fun _ u' hu' => ⟨.ok w, rfl, ?_⟩
      rw [hu', hu]
      exact .written w _ hsaves
  · rintro fault t ⟨answer, hr, -⟩
    cases hr

theorem findOwned_reads (id : String) :
    Reads desk (m.findOwned env id) fun d => m.own (d.store.find? id) := by
  intro s
  exact (h.find id).bind_ends fun t ht => ⟨rfl, ht⟩

theorem findCorrelated_reads (correlationId : String) :
    Reads desk (m.findCorrelated env correlationId) fun d =>
      m.own (d.store.findByCorrelation? correlationId) := by
  intro s
  exact (h.findByCorrelation correlationId).bind_ends fun t ht => ⟨rfl, ht⟩

theorem wake_acts : Acts desk (m.wake env) (·.mapQueue .wake) := update_acts h _

theorem release_acts (id : String) :
    Acts desk (m.release env id) (·.breakLease id m.leaseHolder) := by
  intro s
  refine (h.breakLease id m.leaseHolder).bind_ends fun answer t ht => ?_
  cases answer with
  | ok _ => exact ⟨⟨_, rfl⟩, ht⟩
  | error e =>
    refine (h.report _ t).mono fun r u hu => ⟨hu.1, ?_⟩
    exact hu.2.trans ht

theorem apply_served {v : Negotiation} {event : Event} (hv : v ∈ (desk s).store.records)
    (hrole : v.role = some m.role) (he : event.isSynchronous = true) :
    Ends (m.apply env v event) s fun _ t => (desk s).Served m.role (desk t) := by
  refine (transition_reads h (Negotiation.drawsId_of_isSynchronous he)).bind_ends fun t ht => ?_
  cases hout : v.transition event (desk s).now "" with
  | rejected => exact ht ▸ .idle
  | unchanged => exact ht ▸ .idle
  | applied next message =>
    refine (persist_desk h v next "").bind ?_ ?_
    · rintro (error | w) u ⟨answer, hr, hp⟩
      · cases hr
        exact .refused next error _ (ht ▸ hp)
      · cases hr
        refine (wake_acts h).bind_ends fun _ u' hu' => ?_
        rw [ends_pure, hu']
        exact .moved v next w event message (desk u) hv hrole he hout (ht ▸ hp)
    · rintro fault u ⟨answer, hr, -⟩
      cases hr

theorem applyCorrelated_served (correlationId : String) {event : Event}
    (he : event.isSynchronous = true) :
    Ends (m.applyCorrelated env correlationId event) s fun _ t =>
      (desk s).Served m.role (desk t) := by
  refine (findCorrelated_reads h correlationId).bind_ends fun t ht => ?_
  cases hfound : m.own ((desk s).store.findByCorrelation? correlationId) with
  | none => exact ht ▸ .idle
  | some v =>
    obtain ⟨hv, hrole⟩ := m.own_eq_some.mp hfound
    have hmem := (Store.correlationId_of_findByCorrelation? hv).1
    exact (apply_served h (ht ▸ hmem) hrole he).mono fun _ _ hu => ht ▸ hu

theorem insert_served (n : Negotiation) :
    Ends (m.insert env n) s fun _ t => (desk s).Served m.role (desk t) := by
  refine h.now.bind_ends fun t ht => ?_
  refine (h.save _ "" t).bind ?_ ?_
  · rintro (error | w) u ⟨answer, hr, hsaves⟩
    · cases hr
      exact .refused _ error _ (.refused error _ (ht ▸ hsaves))
    · cases hr
      refine (h.report _).bind_ends fun _ u' hu' => ?_
      refine (wake_acts h).bind_ends fun _ u'' hu'' => ?_
      rw [ends_pure, hu'', hu']
      exact .opened _ w _ rfl rfl (ht ▸ hsaves)
  · rintro fault u ⟨answer, hr, -⟩
    cases hr

theorem identified_leaves (offer : Offer) : Leaves desk (identified env offer) := by
  intro s
  unfold identified
  split
  · exact h.freshId.bind_ends fun _ t ht => ⟨⟨_, rfl⟩, ht⟩
  · exact ⟨⟨_, rfl⟩, rfl⟩

theorem requested_served (token : ClaimToken) (message : RequestMessage) :
    Ends (m.requested env token message) s fun _ t => (desk s).Served m.role (desk t) := by
  unfold requested
  split
  · exact .idle
  · split
    · exact .idle
    · rename_i offer _
      refine (findCorrelated_reads h message.processId).bind_ends fun t ht => ?_
      cases hfound : m.own ((desk s).store.findByCorrelation? message.processId) with
      | some v =>
        obtain ⟨hv, hrole⟩ := m.own_eq_some.mp hfound
        have hmem := (Store.correlationId_of_findByCorrelation? hv).1
        dsimp only
        split
        · exact ht ▸ .idle
        · exact (apply_served h (ht ▸ hmem) hrole rfl).mono fun _ _ hu => ht ▸ hu
      | none =>
        dsimp only
        generalize (if token.clientId ≠ "" then token.clientId else message.connectorId) = consumer
        split
        · exact ht ▸ .idle
        · split
          · exact ht ▸ .idle
          · refine h.freshId.bind_ends fun id u hu => ?_
            exact (insert_served h _).mono fun _ _ hu' => ht ▸ hu ▸ hu'

theorem Synchronous.served {x : Action σ (Except Refusal Negotiation)}
    (hx : m.Synchronous env x) : Ends x s fun _ t => (desk s).Served m.role (desk t) := by
  cases hx with
  | initiate request =>
    unfold Manager.initiate
    split
    · exact .idle
    · split
      · exact .idle
      · refine h.freshId.bind_ends fun id t ht => ?_
        refine (identified_leaves h _).bind_ends fun offer u hu => ?_
        exact (insert_served h _).mono fun _ _ hu' => ht ▸ hu ▸ hu'
  | offered c offer => exact applyCorrelated_served h c rfl
  | agreed c agreement policy =>
    unfold Manager.agreed
    split
    · exact .idle
    · exact applyCorrelated_served h c rfl
  | finalized c => exact applyCorrelated_served h c rfl
  | requested token message => exact requested_served h token message
  | counterOffer id offer =>
    refine (findOwned_reads h id).bind_ends fun t ht => ?_
    cases hfound : m.own ((desk s).store.find? id) with
    | none => exact ht ▸ .idle
    | some v =>
      obtain ⟨hv, hrole⟩ := m.own_eq_some.mp hfound
      refine (identified_leaves h offer).bind_ends fun offer u hu => ?_
      have hu := hu.trans ht
      have hmem : v ∈ (desk u).store.records := hu ▸ Store.mem_of_find? hv
      exact (apply_served h hmem hrole rfl).mono fun _ _ hu' => hu ▸ hu'
  | verified c => exact applyCorrelated_served h c rfl
  | terminated c reason => exact applyCorrelated_served h c rfl

theorem applyCommand_tried (c : QueuedCommand) :
    Ends (m.applyCommand env c) s fun r t => (∃ a, r = .ok a) ∧ (desk s).Tried m c (desk t) := by
  have reports {t : σ} {d : Desk} (notice : Notice) (ht : desk t = d)
      (hd : (desk s).Tried m c d) :
      Ends (env.report notice) t fun r u => (∃ a, r = .ok a) ∧ (desk s).Tried m c (desk u) :=
    (h.report notice t).mono fun _ u hu => ⟨hu.1, hu.2.symm ▸ ht.symm ▸ hd⟩
  refine (h.find c.command.target).bind_ends fun t ht => ?_
  cases hfound : (desk s).store.find? c.command.target with
  | none => exact reports _ ht (.missing hfound)
  | some v =>
    dsimp only
    split
    · rename_i hrole
      exact reports _ ht (.foreign v hfound hrole)
    · rename_i hrole
      have hrole := not_not.mp hrole
      refine (transition_reads h (v.drawsId_command c.command)).bind_ends fun u hu => ?_
      have hu := hu.trans ht
      rw [ht]
      cases hout : v.transition c.command.event (desk s).now "" with
      | rejected => exact reports _ hu (.rejected v hfound hrole hout)
      | unchanged =>
        obtain ⟨-, reason, hreason⟩ := Negotiation.transition_unchanged hout
        cases hc : c.command <;> simp [hc, Command.event] at hreason
      | applied next message =>
        refine (persist_desk h v next "").bind ?_ ?_
        · rintro (error | w) u' ⟨answer, hr, hp⟩
          · cases hr
            rw [hu] at hp
            dsimp only
            split
            · rename_i hlost
              refine (h.report _).bind_ends fun _ t' ht' => ?_
              refine (update_acts h _ t').mono fun _ t'' ht'' => ?_
              refine ⟨ht''.1, ?_⟩
              rw [ht''.2, ht']
              exact .requeued v next message error _ hfound hrole hout hp hlost.1 hlost.2
            · rename_i hlost
              exact reports _ rfl (.dropped v next message error _ hfound hrole hout hp hlost)
          · cases hr
            rw [hu] at hp
            refine (wake_acts h u').mono fun _ t' ht' => ?_
            refine ⟨ht'.1, ?_⟩
            rw [ht'.2]
            exact .written v next w message _ hfound hrole hout hp
        · rintro fault u' ⟨answer, hr, -⟩
          cases hr

theorem recordFailure_desk (id : String) : Ends (m.recordFailure env id) s fun r t =>
    ∃ d attempts, (desk s).countFailure m.options.backoff id = (d, desk t) ∧
      r = .ok (d, attempts) := by
  refine h.now.bind_ends fun t ht => ?_
  refine h.workload.bind_ends fun u hu => ?_
  refine (h.setWorkload _).bind_ends fun _ u' hu' => ?_
  rw [ht] at hu'
  refine ⟨_, _, ?_, rfl⟩
  rw [hu', hu, ht]
  rfl

theorem conclude_desk (next : Negotiation) : Ends (m.conclude env n next) s fun r t =>
    (∃ answer, (desk s).Persists next m.leaseHolder answer (desk t)) ∧ r = .ok () := by
  refine (persist_desk h n next m.leaseHolder).bind ?_ ?_
  · rintro (error | w) t ⟨answer, hr, hp⟩
    · cases hr
      exact (h.report _ t).mono fun _ u hu => ⟨⟨_, hu.2 ▸ hp⟩, hu.1.choose_spec⟩
    · exact ⟨⟨_, Except.ok.inj hr ▸ hp⟩, rfl⟩
  · rintro fault t ⟨answer, hr, -⟩
    cases hr

theorem concludeFailed_desk (cause : String) : Ends (m.concludeFailed env n cause) s fun r t =>
    (∃ answer, (desk s).Persists ((n.transition (.fail cause) (desk s).now "").next n)
      m.leaseHolder answer (desk t)) ∧ r = .ok () := by
  refine (transition_reads h (rfl : n.drawsId (.fail cause) = false)).bind_ends fun t ht => ?_
  exact (conclude_desk h _).mono fun _ u hu => ht ▸ hu

variable {Sends : RemoteMessage → Desk → Except Fault DispatchResult → Desk → Prop}
  (hsend : ∀ message s, Ends (send message) s fun r t => Sends message (desk s) r (desk t))
include hsend

theorem deliver_turned {agreementId : String} {next : Negotiation} {message : RemoteMessage}
    (ht : n.transition m.turn (desk s).now agreementId = .applied next (some message)) :
    Ends (m.deliver env send n next message) s fun r t =>
      ∃ d, (desk s).Turned m Sends n d ∧ d.Over m n r (desk t) := by
  refine (hsend message s).bind ?_ fun fault t hsent => ⟨_, .threw _ _ _ fault _ ht hsent, rfl⟩
  rintro (peer | text | text) t hsent
  · refine (forget_acts h n.id).bind_ends fun _ u hu => ?_
    refine (conclude_desk h _).bind ?_ (fun _ _ hu' => by cases hu'.2)
    rintro _ u' ⟨⟨answer, hp⟩, -⟩
    exact ⟨_, .acknowledged _ _ _ peer answer _ _ ht hsent (hu ▸ hp), rfl⟩
  · refine (recordFailure_desk h n.id).bind ?_ (fun _ _ ⟨_, _, _, hr⟩ => by cases hr)
    rintro _ u ⟨exhausted, attempts, hcount, hr⟩
    obtain rfl := Except.ok.inj hr
    dsimp only
    cases exhausted with
    | true =>
      refine (h.report _).bind_ends fun _ u' hu' => ?_
      refine (concludeFailed_desk h _).bind ?_ (fun _ _ hu' => by cases hu'.2)
      rintro _ u'' ⟨⟨answer, hp⟩, -⟩
      exact ⟨_, .exhausted _ _ _ text _ answer _ _ _ ht hsent hcount (hu' ▸ hp), rfl⟩
    | false =>
      refine (h.report _).bind_ends fun _ u' hu' => ?_
      refine (release_acts h n.id).bind_ends fun _ u'' hu'' => ?_
      exact ⟨_, .waits _ _ _ text _ _ ht hsent hcount, hu''.trans (by rw [hu'])⟩
  · refine (forget_acts h n.id).bind_ends fun _ u hu => ?_
    refine (h.report _).bind_ends fun _ u' hu' => ?_
    refine (concludeFailed_desk h _).bind ?_ (fun _ _ hu' => by cases hu'.2)
    rintro _ u'' ⟨⟨answer, hp⟩, -⟩
    rw [hu', hu] at hp
    exact ⟨_, .fatal _ _ _ text answer _ _ ht hsent hp, rfl⟩

theorem advance_turned : Ends (m.advance env send n) s fun r t =>
    ∃ d, (desk s).Turned m Sends n d ∧ d.Over m n r (desk t) := by
  have passes {t : σ} (notice : Notice) (ht : desk t = desk s) :
      Ends (env.report notice >>= fun _ => m.release env n.id >>= fun _ => pure true) t
        fun r u => ∃ d, (desk s).Turned m Sends n d ∧ d.Over m n r (desk u) := by
    refine (h.report notice).bind_ends fun _ u hu => ?_
    refine (release_acts h n.id).bind_ends fun _ u' hu' => ?_
    exact ⟨_, .passed, hu'.trans (by rw [hu, ht])⟩
  refine (transition_desk h m.turn).bind ?_ (fun _ _ ⟨⟨_, hr⟩, _⟩ => by cases hr)
  rintro outcome t ⟨⟨agreementId, hr⟩, ht⟩
  replace hr := (Except.ok.inj hr).symm
  cases outcome with
  | rejected => exact passes _ ht
  | unchanged => exact passes _ ht
  | applied next message =>
    cases message with
    | some message => exact (deliver_turned h hsend (ht ▸ hr)).mono fun _ _ hu => ht ▸ hu
    | none =>
      refine (conclude_desk h next).bind ?_ (fun _ _ hu => by cases hu.2)
      rintro _ u ⟨⟨answer, hp⟩, -⟩
      exact ⟨_, .silent _ _ answer _ hr (ht ▸ hp), rfl⟩

theorem processLeased_turned : Ends (m.processLeased env send n) s fun _ t =>
    ∃ d, (desk s).Turned m Sends n d ∧ desk t = d.breakLease n.id m.leaseHolder := by
  refine (advance_turned h hsend).attempt ?_
  rintro (fault | settled) t ⟨d, hd, hover⟩
  · refine (h.report _).bind_ends fun _ u hu => ?_
    refine (release_acts h n.id u).mono fun _ u' hu' => ⟨d, hd, ?_⟩
    rw [hu'.2, hu, show desk t = d from hover]
  · cases settled with
    | true => exact ⟨d, hd, hover⟩
    | false =>
      refine (release_acts h n.id t).mono fun _ u hu => ⟨d, hd, ?_⟩
      rw [hu.2, show desk t = d from hover]

end

structure Polls (m : Manager)
    (Sends : RemoteMessage → Desk → Except Fault DispatchResult → Desk → Prop)
    (I : List Negotiation → List Negotiation → Desk → Prop) : Prop where
  drop : ∀ due rest others d, I due rest d → others.Subperm due → I others [] d
  lease : ∀ state d ns store, I [] [] d →
    d.store.leaseNext (State.code state) (some m.role) m.options.batchSize m.leaseHolder d.now =
      (ns, store) → I [] ns { d with store }
  check : ∀ due n rest d, I due (n :: rest) d → d.work.retries.isDue n.id d.now = true →
    I (due ++ [n]) rest d
  release : ∀ due n rest d, I due (n :: rest) d →
    I due rest (d.breakLease n.id m.leaseHolder)
  turn : ∀ n due d d', I (n :: due) [] d → d.Turned m Sends n d' →
    I due [] (d'.breakLease n.id m.leaseHolder)

theorem Desk.now_breakLease (d : Desk) (id holder : String) :
    (d.breakLease id holder).now = d.now := by
  unfold Desk.breakLease
  split <;> rfl

section

variable (h : env.Faithful m.role desk)
include h

theorem takeCommands_desk : Ends (m.takeCommands env) s fun r t =>
    r = .ok ((desk s).waiting.take m.options.commandBatchSize) ∧
      desk t = (desk s).mapQueue fun q => (q.dequeue m.options.commandBatchSize).2 := by
  refine h.workload.bind_ends fun t ht => ?_
  refine (h.setWorkload _).bind_ends fun _ u hu => ⟨rfl, ?_⟩
  rw [hu, ht]
  rfl

theorem isDue_desk (now : Instant) : Ends (m.isDue env now n) s fun r t =>
    r = .ok true ∧ desk t = desk s ∧ (desk s).work.retries.isDue n.id now = true ∨
      r = .ok false ∧ desk t = (desk s).breakLease n.id m.leaseHolder := by
  refine h.workload.bind_ends fun t ht => ?_
  split
  · refine (release_acts h n.id).bind_ends fun _ u hu => .inr ⟨rfl, ?_⟩
    rw [hu, ht]
  · rename_i hdue
    refine .inl ⟨rfl, ht, ?_⟩
    simp only [Bool.or_eq_true, Bool.not_eq_true', not_or, Bool.not_eq_false] at hdue
    exact hdue.2

variable {Sends : RemoteMessage → Desk → Except Fault DispatchResult → Desk → Prop}
  (hsend : ∀ message s, Ends (send message) s fun r t => Sends message (desk s) r (desk t))
  {I : List Negotiation → List Negotiation → Desk → Prop} (hI : m.Polls Sends I)
include hsend hI

theorem processState_polls (state : State) (hs : I [] [] (desk s)) :
    Ends (m.processState env send state) s fun _ t => I [] [] (desk t) := by
  refine (h.lease state m.options.batchSize m.leaseHolder s).bind ?_
    (fun _ _ ⟨_, _, hr, _⟩ => by cases hr)
  rintro leased t ⟨_, store, hr, ht, hlease⟩
  cases hr
  have ht : I [] leased (desk t) := ht ▸ hI.lease state _ _ _ hs hlease
  split
  · exact hI.drop _ _ _ _ ht List.nil_subperm
  · refine h.now.bind_ends fun u hu => ?_
    refine Ends.bind (select_ends
      (fun due rest t' => I due rest (desk t') ∧ (desk t').now = (desk t).now) ?_
      ⟨hu ▸ ht, hu ▸ rfl⟩) ?_ fun _ _ hu' => hu'.1
    · rintro due n rest t' ⟨ht', hnow⟩
      refine (isDue_desk h _).mono ?_
      rintro r u' (⟨rfl, hu', hdue⟩ | ⟨rfl, hu'⟩)
      · exact ⟨hu' ▸ hI.check due n rest _ ht' (hnow ▸ hdue), hu' ▸ hnow⟩
      · exact ⟨hu' ▸ hI.release due n rest _ ht', by rw [hu', Desk.now_breakLease, hnow]⟩
    · rintro due u' ⟨hu', -⟩
      refine (processDue_ends (I := fun due t => I due [] (desk t)) ?_ ?_ hu').andPure
      · exact fun due others t ht hp => hI.drop due [] others _ ht hp
      · intro n due t ht
        refine (processLeased_turned h hsend).mono ?_
        rintro r u ⟨d, hd, hu⟩
        exact hu ▸ hI.turn n due _ d ht hd

theorem runOnce_polls
    (hcommands : Ends (m.drainCommands env) s fun _ t => I [] [] (desk t)) :
    Ends (m.runOnce env send) s fun _ t => I [] [] (desk t) := by
  refine hcommands.bind ?_ fun _ _ ht => ht
  intro commands t ht
  refine (total_ends (fun t => I [] [] (desk t)) ?_ ht).andPure
  exact fun state _ t ht => processState_polls h hsend hI state ht

end

end Manager

end ContractNegotiation
