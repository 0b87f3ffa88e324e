import ContractNegotiation.Proofs.Timed.Loop
import ContractNegotiation.Proofs.Timed.Upkeep

namespace ContractNegotiation

open ContractNegotiation.Action Negotiation

theorem Store.records_eq {s t : Store} (hs : s.Tidy)
    (hids : t.records.map Negotiation.id = s.records.map Negotiation.id)
    (hfind : ∀ id, t.find? id = s.find? id) : t.records = s.records := by
  have ht : t.Tidy := by
    unfold Tidy
    rwa [hids]
  have hlength : t.records.length = s.records.length := by
    simpa using congrArg List.length hids
  apply List.ext_getElem hlength
  intro k hk hk'
  have hid : t.records[k].id = s.records[k].id := by
    have hk'' := List.getElem_of_eq hids (by simpa using hk)
    simpa using hk''
  have hfirst := ht.find?_of_mem (List.getElem_mem hk)
  rw [hid, hfind, hs.find?_of_mem (List.getElem_mem hk')] at hfirst
  exact (Option.some.inj hfirst).symm

theorem Negotiation.WellFormed.drawsId {v : Negotiation} (h : v.WellFormed)
    (hs : v.state ≠ .consumerRequested) (m : Manager) : v.drawsId m.turn = false := by
  by_cases ha : v.state = .agreeing
  · obtain ⟨a, hagreement, -⟩ := h.bound (by simp [ha, State.bound])
    simp [Negotiation.drawsId, Manager.turn, needsDraft, hs, hagreement]
  · simp [Negotiation.drawsId, Manager.turn, needsDraft, hs, ha]

namespace Page

variable {p q r : Page} {m : Manager} {v : Negotiation} {vs ws : List Negotiation} {e : Ending}
  {f : Negotiation → Ending}

structure Plays (p : Page) (m : Manager) (f : Negotiation → Ending) (vs : List Negotiation)
    (q : Page) : Prop where
  names : q.site.store.records.map Negotiation.id = p.site.store.records.map Negotiation.id
  record : ∀ v ∈ vs, q.site.store.find? v.id = some (v.replacedBy (f v).version)
  lease : ∀ v ∈ vs, q.site.store.leases.get? v.id = none
  tries : ∀ v ∈ vs, q.site.tries m.role v.id = (f v).tries
  others : ∀ id, id ∉ vs.map Negotiation.id →
    q.site.store.find? id = p.site.store.find? id ∧
      q.site.store.leases.get? id = p.site.store.leases.get? id ∧
      q.site.tries m.role id = p.site.tries m.role id
  elsewhere : ∀ role, role ≠ m.role → ∀ id, q.site.tries role id = p.site.tries role id
  sent : q.sent = p.sent ++ vs.flatMap fun v => (f v).message.toList

theorem plays_nil (p : Page) (m : Manager) (f : Negotiation → Ending) : p.Plays m f [] p :=
  ⟨rfl, by simp, by simp, by simp, fun _ _ => ⟨rfl, rfl, rfl⟩, fun _ _ _ => rfl, by simp⟩

theorem Turns.plays (h : p.Turns m v (f v) q) (hq : q.Plays m f vs r)
    (hv : v.id ∉ vs.map Negotiation.id) : p.Plays m f (v :: vs) r := by
  obtain ⟨hrecord, hlease, htries⟩ := hq.others v.id hv
  constructor
  · rw [hq.names, h.names]
  · rw [List.forall_mem_cons]
    refine ⟨?_, hq.record⟩
    rw [hrecord, h.settles.find?, if_pos rfl]
  · rw [List.forall_mem_cons]
    refine ⟨?_, hq.lease⟩
    rw [hlease, h.settles.leases, if_pos rfl]
  · rw [List.forall_mem_cons]
    refine ⟨?_, hq.tries⟩
    rw [htries, h.tries, if_pos ⟨rfl, rfl⟩]
  · intro id hid
    rw [List.map_cons, List.mem_cons, not_or] at hid
    obtain ⟨hrecord', hlease', htries'⟩ := hq.others id hid.2
    rw [hrecord', hlease', htries', h.settles.find?, h.settles.leases, h.tries, if_neg hid.1,
      if_neg hid.1, if_neg fun hn => hid.1 hn.2]
    exact ⟨rfl, rfl, rfl⟩
  · intro role hrole id
    rw [hq.elsewhere role hrole, h.tries, if_neg fun hn => hrole hn.1]
  · rw [hq.sent, h.sent, List.flatMap_cons, List.append_assoc]

/-- The same is stored, leased and known of tries, and the same messages have been sent, if perhaps
in another order. -/
structure Concurs (p q : Page) : Prop where
  records : q.site.store.records = p.site.store.records
  leases : ∀ id, q.site.store.leases.get? id = p.site.store.leases.get? id
  tries : ∀ role id, q.site.tries role id = p.site.tries role id
  sent : q.sent.Perm p.sent

theorem Plays.concurs (h : p.Plays m f vs q) (h' : p.Plays m f ws r) (hp : ws.Perm vs)
    (ht : p.site.store.Tidy) : q.Concurs r := by
  have hmem (id : String) : id ∉ vs.map Negotiation.id → id ∉ ws.map Negotiation.id :=
    fun hid hw => hid ((hp.map Negotiation.id).mem_iff.mp hw)
  have htidy : q.site.store.Tidy := by
    unfold Store.Tidy
    rw [h.names]
    exact ht
  -- both have done the same to the records of the batch, and nothing to the others
  have batch {β : Type} {g g' : String → β} (hin : ∀ v ∈ vs, g v.id = g' v.id)
      (hout : ∀ id, id ∉ vs.map Negotiation.id → g id = g' id) (id : String) : g id = g' id := by
    by_cases hid : id ∈ vs.map Negotiation.id
    · obtain ⟨v, hv, rfl⟩ := List.mem_map.mp hid
      exact hin v hv
    · exact hout id hid
  constructor
  · apply Store.records_eq htidy (h'.names.trans h.names.symm)
    apply batch
    · intro v hv
      rw [h.record v hv, h'.record v (hp.mem_iff.mpr hv)]
    · intro id hid
      rw [(h.others id hid).1, (h'.others id (hmem id hid)).1]
  · apply batch
    · intro v hv
      rw [h.lease v hv, h'.lease v (hp.mem_iff.mpr hv)]
    · intro id hid
      rw [(h.others id hid).2.1, (h'.others id (hmem id hid)).2.1]
  · intro role
    by_cases hrole : role = m.role
    · subst hrole
      apply batch
      · intro v hv
        rw [h.tries v hv, h'.tries v (hp.mem_iff.mpr hv)]
      · intro id hid
        rw [(h.others id hid).2.2, (h'.others id (hmem id hid)).2.2]
    · intro id
      rw [h.elsewhere role hrole, h'.elsewhere role hrole]
  · rw [h.sent, h'.sent]
    exact (hp.flatMap_right _).append_left _

end Page

namespace Timed

variable {n : Nat} {i : Fin n} {m : Manager} {s₀ s : Timed n}

/-- What a manager may find when it polls: the connector between two calls, or, in the midst of a
round, after commands have been applied and states have been polled. -/
inductive Amid (roster : Roster n) (i : Fin n) (m : Manager) (s₀ : Timed n) : Timed n → Prop where
  | between {s : Timed n} : Runs roster i s₀ s → Amid roster i m s₀ s
  | drained {s : Timed n} (clock : Nat → Instant) : Amid roster i m s₀ s →
      Amid roster i m s₀ ((m.drainCommands (environment clock roster.ids i)).after s)
  | polled {s : Timed n} {state : State} {dispatch : Transport (Timed n)}
      (clock : Nat → Instant) : Amid roster i m s₀ s → NoCallback i dispatch →
      state ∈ State.processable m.role →
      Amid roster i m s₀ ((m.processState (environment clock roster.ids i) dispatch state).after s)

theorem Amid.clear {connectors : Vector Connector n} {draws : Nat → Identifier}
    (h : Amid (.drawing connectors draws) i m s₀ s) (hc : (connectors.get i).Typed)
    (hstart : (s₀.site i).store.records = [])
    (hfree : ∀ id lease, (s₀.site i).store.leases.get? id = some lease →
      lease.holder ≠ m.leaseHolder) :
    (s.site i).store.Clear m ∧ (s₀.site i).store.Evolves (s.site i).store := by
  have hids (k : Nat) : (draws k).text ≠ "" := (draws k).text_ne_empty
  induction h with
  | between hruns =>
    exact ⟨hruns.clear hc hstart hfree, hruns.evolves hc (Store.tidy_of_records hstart)⟩
  | drained clock _ ih =>
    obtain ⟨hclear, hevolves⟩ := ih
    have hback : NoCallback i (fun _ => throw default : Transport (Timed n)) := fun _ _ => rfl
    obtain ⟨⟨hdrained, hdrain⟩, -⟩ := (drainCommands_clear hids hback hclear).after
    exact ⟨hdrained, hevolves.trans hdrain⟩
  | polled clock _ hback hstate ih =>
    obtain ⟨hclear, hevolves⟩ := ih
    obtain ⟨⟨hpolled, hpoll⟩, -⟩ := (processState_clear hids hback hclear hstate).after
    exact ⟨hpolled, hevolves.trans hpoll⟩

end Timed

namespace Chronicle

variable {n : Nat} {m : Manager} {ids : Nat → String} {i : Fin n} {dispatch : Transport (Timed n)}
  {s : Chronicle n} {vs : List Negotiation} {f : Negotiation → Ending} {now : Instant}
  {answer : RemoteMessage → Except Fault DispatchResult}

def turns (m : Manager) (now : Instant) (ids : Nat → String) (i : Fin n)
    (dispatch : Transport (Timed n)) (vs : List Negotiation) : Action (Chronicle n) Unit :=
  each (m.processLeased (environment (fun _ => now) ids i) (send dispatch)) vs

theorem turns_play (hback : Timed.NoCallback i dispatch)
    (hanswer : ∀ message u, (dispatch message).outcome u = answer message)
    (hplain : ∀ v ∈ vs, v.drawsId m.turn = false)
    (hf : ∀ v ∈ vs, f v = m.ending v ((s.site i).tries m.role v.id) now now now "" answer)
    (h : (s.site i).store.Held m vs) :
    Yields (turns m now ids i dispatch vs) s fun _ t =>
      (s.page i).Plays m f vs (t.page i) := by
  unfold turns
  induction vs generalizing s with
  | nil => exact yields_pure.mpr (Page.plays_nil _ m f)
  | cons v vs ih =>
    rw [List.forall_mem_cons] at hplain hf
    have hnodup := h.lending.nodup
    rw [List.map_cons, List.nodup_cons] at hnodup
    apply ((situated _ ids i).processLeased_turns h.lends (send_posts hback) rfl).bind
    rintro _ t ⟨_, _, rfl, ⟨agreementId, u, counted, failed, hdrawn, -, rfl⟩, hturns⟩
    simp only [hdrawn hplain.1, outcome_send, hanswer] at hturns
    replace hturns : (s.page i).Turns m v (f v) (t.page i) := by
      rw [hf.1]
      exact hturns
    -- the tries at the records behind are still those that the batch has begun with
    have hrest (w : Negotiation) (hw : w ∈ vs) :
        f w = m.ending w ((t.site i).tries m.role w.id) now now now "" answer := by
      have hne : w.id ≠ v.id := fun hid => hnodup.1 (hid ▸ List.mem_map_of_mem hw)
      have hkept : (t.site i).tries m.role w.id = (s.site i).tries m.role w.id :=
        (hturns.tries m.role w.id).trans (if_neg fun hn => hne hn.2)
      rw [hf.2 w hw, hkept]
    apply (ih hplain.2 hrest (hturns.held h)).mono
    intro _ u hu
    exact hturns.plays hu hnodup.1

theorem turns_concur {order : List Negotiation} (hback : Timed.NoCallback i dispatch)
    (hanswer : ∀ message u, (dispatch message).outcome u = answer message)
    (hplain : ∀ v ∈ vs, v.drawsId m.turn = false) (h : (s.site i).store.Held m vs)
    (hp : order.Perm vs) {t : Chronicle n}
    (ht : (s.page i).Plays m (fun v => m.ending v ((s.site i).tries m.role v.id) now now now ""
      answer) vs (t.page i)) :
    Yields (turns m now ids i dispatch order) s fun _ u => (t.page i).Concurs (u.page i) := by
  have hplain' (v : Negotiation) (hv : v ∈ order) : v.drawsId m.turn = false :=
    hplain v (hp.mem_iff.mp hv)
  apply (turns_play hback hanswer hplain' (fun _ _ => rfl) (h.perm hp)).mono
  intro _ u hu
  exact ht.concurs hu hp h.tidy

variable {connectors : Vector Connector n} {draws : Nat → Identifier} {s₀ s : Timed n}

/-- At a fixed time, and with a dispatcher that answers a message by what it says, it is no matter
how a batch is shared out, nor in which order the hands are played. Drafts of agreements are left
out: they are told apart by the ids that they draw. -/
theorem workers_concur (hc : (connectors.get i).Typed) (hstart : (s₀.site i).store.records = [])
    (m : Manager) (hamid : Timed.Amid (.drawing connectors draws) i m s₀ s)
    (hfree : ∀ id lease, (s₀.site i).store.leases.get? id = some lease →
      lease.holder ≠ m.leaseHolder) {state : State} (hstate : state ∈ State.processable m.role)
    (hdraws : state ≠ .consumerRequested) (now : Instant) (hback : Timed.NoCallback i dispatch)
    (hanswer : ∀ message u, (dispatch message).outcome u = answer message) :
    Yields (m.sift (environment (fun _ => now) (Roster.drawing connectors draws).ids i) state)
      { timed := s } fun batch t => (batch.due.map Negotiation.id).Nodup ∧
        Yields (turns m now (Roster.drawing connectors draws).ids i dispatch batch.due) t
          fun _ alone =>
            (Yields (m.processDue (environment (fun _ => now)
              (Roster.drawing connectors draws).ids i) (send dispatch) batch.due) t fun _ u =>
                (alone.page i).Concurs (u.page i)) ∧
            ∀ hands, 0 < hands → (Manager.deal hands batch.due).flatten.Perm batch.due ∧
              ∀ order, order.Perm (Manager.deal hands batch.due).flatten →
                Yields (turns m now (Roster.drawing connectors draws).ids i dispatch order) t
                  fun _ u => (alone.page i).Concurs (u.page i) := by
  obtain ⟨hclear, hevolves⟩ := hamid.clear hc hstart hfree
  have hwell := hevolves.wellFormed (by simp [hstart])
  have hclear' : (({ timed := s } : Chronicle n).site i).store.Clear m := hclear
  apply ((situated _ _ i).sift_yields (m := m) (p := ({ timed := s } : Chronicle n).page i) rfl
    state).mono
  rintro batch t ⟨_, rfl, hpolls⟩
  have hheld : (t.site i).store.Held m batch.due :=
    hclear'.held.of_records hpolls.records (hpolls.lending hclear' hstate)
  have hplain (v : Negotiation) (hv : v ∈ batch.due) : v.drawsId m.turn = false := by
    have hoffers := hpolls.offers hclear' hstate (hpolls.mem_due_iff.mp hv).1
    refine (hwell v (Store.mem_of_find? hoffers.stored)).drawsId ?_ m
    rw [hoffers.state]
    exact hdraws
  refine ⟨hheld.lending.nodup, ?_⟩
  apply (turns_play hback hanswer hplain (fun _ _ => rfl) hheld).mono
  intro _ alone halone
  refine ⟨?_, fun hands hhands => ⟨Manager.deal_perm hhands _, fun order horder => ?_⟩⟩
  · rw [Manager.processDue_eq processLeased_answers]
    exact turns_concur hback hanswer hplain hheld (m.order_perm _) halone
  · have hp := horder.trans (Manager.deal_perm hhands batch.due)
    exact turns_concur hback hanswer hplain hheld hp halone

def paired : Connector := .create "c" "http://c" { workers := 2 } "first" "second"

def pairedRoster : Roster 1 := .drawing #v[paired] fun k => ⟨.replicate 16 (UInt8.ofNat k)⟩

def asking (s : Timed 1) : Timed 1 :=
  (Service.initiate paired (Timed.environment Timed.leaping pairedRoster.ids (Fin.last 0))
    { counterPartyAddress := "http://p", offer := some {} }).after s

def askedTwice : Timed 1 := asking (asking { network := Network.vacant })

theorem runs_askedTwice :
    Timed.Runs pairedRoster 0 { network := Network.vacant } askedTwice := by
  have asks {s : Timed 1} (h : Timed.Runs pairedRoster 0 { network := Network.vacant } s) :
      Timed.Runs pairedRoster 0 { network := Network.vacant } (asking s) :=
    h.call Timed.leaping (.initiate _ _)
  exact asks (asks (.done _))

def half (message : RemoteMessage) : Except Fault DispatchResult :=
  .ok (if message.processId = pairedRoster.ids 0 then .ok "peer" else .transient "busy")

def halving : Transport (Timed 1) := fun message =>
  pure (if message.processId = pairedRoster.ids 0 then .ok "peer" else .transient "busy")

theorem workers_concur_of_askedTwice :
    (askedTwice.site 0).store.records.map Negotiation.state = [.requesting, .requesting] ∧
    (((turns paired.consumer default pairedRoster.ids 0 halving
      (askedTwice.site 0).store.records).after
        { timed := askedTwice }).site 0).store.records.map Negotiation.state =
          [.requesting, .requested] ∧
    Yields (paired.consumer.sift (environment (fun _ => default) pairedRoster.ids 0) .requesting)
      { timed := askedTwice } fun batch t => (batch.due.map Negotiation.id).Nodup ∧
        Yields (turns paired.consumer default pairedRoster.ids 0 halving batch.due) t
          fun _ alone =>
            (Yields (paired.consumer.processDue (environment (fun _ => default) pairedRoster.ids 0)
              (send halving) batch.due) t fun _ u => (alone.page 0).Concurs (u.page 0)) ∧
            ∀ hands, 0 < hands → (Manager.deal hands batch.due).flatten.Perm batch.due ∧
              ∀ order, order.Perm (Manager.deal hands batch.due).flatten →
                Yields (turns paired.consumer default pairedRoster.ids 0 halving order) t
                  fun _ u => (alone.page 0).Concurs (u.page 0) := by
  have hc : (#v[paired].get 0).Typed := ⟨rfl, rfl⟩
  have hfree (id : String) (lease : Lease)
      (hl : (Network.vacant.site 0).store.leases.get? id = some lease) :
      lease.holder ≠ paired.consumer.leaseHolder := by cases hl
  have hback : Timed.NoCallback 0 halving := fun _ _ => rfl
  have hanswer (message : RemoteMessage) (u : Timed 1) :
      (halving message).outcome u = half message := rfl
  exact ⟨by decide +kernel, by decide +kernel, workers_concur hc rfl paired.consumer
    (.between runs_askedTwice) hfree (by decide) (by decide) default hback hanswer⟩

end Chronicle

end ContractNegotiation
