import ContractNegotiation.Manager
import ContractNegotiation.Proofs.Environment
import ContractNegotiation.Proofs.Store.Evolution

namespace ContractNegotiation

open ContractNegotiation.Action

variable {σ ρ : Type} {f : Focus σ ρ} {ids : Nat → String} {env : Environment σ} {s t u : σ}

namespace Focus

/-- What a synchronous operation, begun in `s`, has done when it ends: nothing, with or without a
record for an answer, or one write, whose record it answers. `moves`, `opens` and `keeps` say which
records it may answer. -/
inductive Effect (f : Focus σ ρ) (ids : Nat → String) (s : σ)
    (moves : Negotiation → Event → Prop) (opens keeps : Negotiation → Prop) :
    Except Fault (Except Refusal Negotiation) → σ → Prop where
  | refused {r : Except Fault (Except Refusal Negotiation)} {t : σ} : f.Keeps s t →
      (∀ w, r ≠ .ok (.ok w)) → Effect f ids s moves opens keeps r t
  | kept {t : σ} (v : Negotiation) : f.Keeps s t → keeps v →
      Effect f ids s moves opens keeps (.ok (.ok v)) t
  | moved {t : σ} (v w : Negotiation) (event : Event) (agreementId : String) : f.Confined s t →
      moves v event → (v.drawsId event = true → ∃ k, agreementId = ids k) →
      (f.store s).Moved v event agreementId "" w (f.store t) →
      Effect f ids s moves opens keeps (.ok (.ok w)) t
  | opened {t : σ} (w : Negotiation) (k : Nat) : f.Confined s t → f.issued s ≤ k → k < f.issued t →
      w.id = ids k → opens w → (f.store s).Opened w (f.store t) →
      Effect f ids s moves opens keeps (.ok (.ok w)) t

variable {moves moves' : Negotiation → Event → Prop}
  {opens opens' keeps keeps' : Negotiation → Prop} {r : Except Fault (Except Refusal Negotiation)}

theorem Effect.mono (h : f.Effect ids s moves opens keeps r t)
    (hmoves : ∀ v event, moves v event → moves' v event) (hopens : ∀ w, opens w → opens' w)
    (hkeeps : ∀ v, keeps v → keeps' v) : f.Effect ids s moves' opens' keeps' r t := by
  cases h with
  | refused hk hr => exact .refused hk hr
  | kept v hk hv => exact .kept v hk (hkeeps v hv)
  | moved v w event aid hc hv hid hm => exact .moved v w event aid hc (hmoves v event hv) hid hm
  | opened w k hc hle hlt hid hw ho => exact .opened w k hc hle hlt hid (hopens w hw) ho

theorem Effect.confined (h : f.Effect ids s moves opens keeps r t) : f.Confined s t := by
  cases h with
  | refused hk => exact hk.toConfined
  | kept _ hk => exact hk.toConfined
  | moved _ _ _ _ hc => exact hc
  | opened _ _ hc => exact hc

theorem Effect.keeps_of_refused (h : f.Effect ids s moves opens keeps r t)
    (hr : ∀ w, r ≠ .ok (.ok w)) : f.Keeps s t := by
  cases h with
  | refused hk => exact hk
  | kept v => exact absurd rfl (hr v)
  | moved _ w => exact absurd rfl (hr w)
  | opened w => exact absurd rfl (hr w)

theorem Effect.after (h : f.Effect ids t moves opens keeps r u) (hs : f.Keeps s t) :
    f.Effect ids s moves opens keeps r u := by
  cases h with
  | refused hk hr => exact .refused (hs.trans hk) hr
  | kept v hk hv => exact .kept v (hs.trans hk) hv
  | moved v w event aid hc hv hid hm =>
    exact .moved v w event aid (hs.toConfined.trans hc) hv hid (hs.store ▸ hm)
  | opened w k hc hle hlt hid hw ho =>
    exact .opened w k (hs.toConfined.trans hc) (Nat.le_trans hs.issued hle) hlt hid hw
      (hs.store ▸ ho)

theorem Effect.before (h : f.Effect ids s moves opens keeps r t) (ht : f.Keeps t u) :
    f.Effect ids s moves opens keeps r u := by
  cases h with
  | refused hk hr => exact .refused (hk.trans ht) hr
  | kept v hk hv => exact .kept v (hk.trans ht) hv
  | moved v w event aid hc hv hid hm =>
    exact .moved v w event aid (hc.trans ht.toConfined) hv hid (ht.store.symm ▸ hm)
  | opened w k hc hle hlt hid hw ho =>
    exact .opened w k (hc.trans ht.toConfined) hle (Nat.lt_of_lt_of_le hlt ht.issued) hid hw
      (ht.store.symm ▸ ho)

def Wrote (f : Focus σ ρ) (s : σ) (v next : Negotiation) (event : Event)
    (agreementId peer holder : String) (r : Except Fault (Except StoreError Negotiation)) (t : σ) :
    Prop :=
  (f.Keeps s t ∧ ¬ (f.store s).Grants v holder ∧ ∀ w, r ≠ .ok (.ok w)) ∨
    r = .ok (.ok (v.successor next peer)) ∧ f.Confined s t ∧
      (f.store s).Moved v event agreementId peer (v.successor next peer) (f.store t)

end Focus

section Environment

variable (h : env.Lawful ids f)
include h

theorem update_quiet (role : Role) (g : Workload → Workload) : f.Quiet (env.update role g) :=
  (h.workload role).bind fun _ => h.setWorkload role _

theorem transition_ends (n : Negotiation) (event : Event) :
    Ends (env.transition n event) s fun r t => f.Keeps s t ∧
      ∃ now agreementId, r = .ok (n.transition event now agreementId) ∧
        (n.drawsId event = true → ∃ k, agreementId = ids k) := by
  refine h.now.bind_ends fun now t ht => ?_
  split
  · refine (h.freshId t).bind ?_ ?_
    · rintro a u ⟨hu, k, -, -, hk⟩
      exact ⟨ht.trans hu, now, a, rfl, fun _ => ⟨k, Except.ok.inj hk⟩⟩
    · rintro fault u ⟨-, k, -, -, hk⟩
      cases hk
  · rename_i hd
    exact ⟨ht, now, "", rfl, fun hd' => absurd hd' hd⟩

end Environment

namespace Manager

variable (m : Manager) (h : env.Lawful ids f)
include h

theorem wake_quiet : f.Quiet (m.wake env) := update_quiet h m.role _

theorem enqueue_quiet (c : Command) : f.Quiet (m.enqueue env c) :=
  (h.report _).bind fun _ => update_quiet h m.role _

theorem persist_ends {v next : Negotiation} {event : Event} {now : Instant}
    {agreementId : String} {message : Option RemoteMessage} (peer holder : String)
    (hv : (f.store s).Includes v)
    (ht : v.transition event now agreementId = .applied next message) :
    Ends (m.persist env v (next.correlate peer) holder) s
      (f.Wrote s v next event agreementId peer holder) := by
  have hc := (Negotiation.row_of_transition ht).continues
  have hnext : Ends (env.save (next.correlate peer) holder) s fun r _ =>
      (f.store s).Grants v holder → ∃ w, r = .ok (.ok w) := by
    by_cases hg : (f.store s).Grants v holder
    · refine (h.save_next _ v holder s ?_ ?_ ?_ ?_ ?_).mono fun r t hr _ => hr
      all_goals simp only [Negotiation.correlate_eq, hc.id, hc.stateCount]
      · exact hg.id
      · exact hg.counted
      · exact hg.stored
      · exact hg.lease
    · exact (h.save _ holder s).mono fun _ _ _ hg' => absurd hg' hg
  refine ((h.save _ holder s).and hnext).bind ?_ ?_
  · rintro (error | saved) t ⟨⟨hc, hw⟩, hg⟩
    · rcases hw with ⟨hs, -⟩ | ⟨w, hw, -⟩
      · exact .inl ⟨⟨hc, hs⟩, fun h => by simpa using hg h, by simp⟩
      · cases hw
    · rcases hw with ⟨-, hw⟩ | ⟨w, hw, hsaved⟩
      · exact absurd rfl (hw saved)
      · cases hw
        refine (update_quiet h m.role _).bind_ends fun _ u hu => ?_
        refine (h.report _).bind_ends fun _ u' hu' => ?_
        have hu := hu.trans hu'
        obtain ⟨hm, rfl⟩ := hv.moved ht hsaved
        exact .inr ⟨rfl, hc.trans hu.toConfined, hu.store.symm ▸ hm⟩
  · rintro fault t ⟨⟨hc, ⟨hs, -⟩ | ⟨w, hw, -⟩⟩, hg⟩
    · exact .inl ⟨⟨hc, hs⟩, fun h => by simpa using hg h, by simp⟩
    · cases hw

theorem apply_ends {v : Negotiation} (event : Event) (hv : (f.store s).Includes v) :
    Ends (m.apply env v event) s (f.Effect ids s (fun v' event' => v' = v ∧ event' = event)
      (fun _ => False) fun v' => v' = v ∧ v.state = .terminated ∧
        ∃ reason, event = .terminationReceived reason) := by
  refine (transition_ends h v event).bind ?_ ?_
  · rintro outcome t ⟨ht, now, agreementId, hr, hid⟩
    replace hr := Except.ok.inj hr
    cases outcome with
    | rejected => exact .refused ht (by simp)
    | unchanged => exact .kept v ht ⟨rfl, Negotiation.transition_unchanged hr.symm⟩
    | applied next message =>
      have hp := m.persist_ends h "" "" (ht.store.symm ▸ hv) hr.symm
      rw [Negotiation.correlate_empty] at hp
      refine hp.bind ?_ ?_
      · rintro (error | saved) u (⟨hu, -, hn⟩ | ⟨hw, hu, hm⟩)
        · exact .refused (ht.trans hu) (by simp)
        · cases hw
        · exact absurd rfl (hn saved)
        · obtain rfl := Except.ok.inj (Except.ok.inj hw)
          refine (m.wake_quiet h).bind_ends fun _ u' hu' => ?_
          exact .moved v _ event agreementId (ht.toConfined.trans (hu.trans hu'.toConfined))
            ⟨rfl, rfl⟩ hid (hu'.store.symm ▸ ht.store ▸ hm)
      · rintro fault u (⟨hu, -⟩ | ⟨hw, -⟩)
        · exact .refused (ht.trans hu) (by simp)
        · cases hw
  · rintro fault t ⟨ht, now, agreementId, hr, -⟩
    cases hr

theorem findOwned_ends (id : String) :
    Ends (m.findOwned env id) s fun r t => f.Keeps s t ∧
      ∀ v, r = .ok (some v) → (f.store s).find? id = some v ∧ v.role = some m.role := by
  refine (h.find id s).bind ?_ ?_
  · rintro found t ⟨ht, hf⟩
    refine ⟨ht, fun v hv => ?_⟩
    rw [← hf found rfl]
    simpa [own, Option.filter_eq_some_iff] using Except.ok.inj hv
  · rintro fault t ⟨ht, -⟩
    exact ⟨ht, by simp⟩

theorem findCorrelated_ends (c : String) :
    Ends (m.findCorrelated env c) s fun r t => f.Keeps s t ∧
      ∀ found, r = .ok found → found = m.own ((f.store s).findByCorrelation? c) := by
  refine (h.findByCorrelation c s).bind ?_ ?_
  · rintro found t ⟨ht, hf⟩
    refine ⟨ht, fun found' h => ?_⟩
    rw [← hf found rfl]
    exact (Except.ok.inj h).symm
  · rintro fault t ⟨ht, -⟩
    exact ⟨ht, by simp⟩

omit h in
theorem own_eq_some {n : Option Negotiation} {v : Negotiation} :
    m.own n = some v ↔ n = some v ∧ v.role = some m.role := by
  simp [own, Option.filter_eq_some_iff]

def Correlated (st : Store) (c : String) (v : Negotiation) : Prop :=
  st.findByCorrelation? c = some v ∧ v.role = some m.role

omit h in
theorem Correlated.includes {m : Manager} {st : Store} {c : String} {v : Negotiation}
    (hst : st.Tidy) (hv : m.Correlated st c v) : st.Includes v :=
  Store.includes_of_find? (hst.find?_of_mem (Store.correlationId_of_findByCorrelation? hv.1).1)

theorem applyCorrelated_ends (hs : (f.store s).Tidy) (c : String) (event : Event) :
    Ends (m.applyCorrelated env c event) s (f.Effect ids s
      (fun v event' => m.Correlated (f.store s) c v ∧ event' = event) (fun _ => False)
      fun v => m.Correlated (f.store s) c v ∧ v.state = .terminated ∧
        ∃ reason, event = .terminationReceived reason) := by
  refine (m.findCorrelated_ends h c).bind ?_ ?_
  · rintro found t ⟨ht, hf⟩
    have hf := (hf found rfl).symm
    cases found with
    | none => exact .refused ht (by simp)
    | some v =>
      have hv : m.Correlated (f.store s) c v := m.own_eq_some.mp hf
      refine (m.apply_ends h event (ht.store.symm ▸ hv.includes hs)).mono fun r u hu => ?_
      refine (hu.after ht).mono ?_ (fun _ h => h) ?_
      · rintro v' event' ⟨rfl, rfl⟩
        exact ⟨hv, rfl⟩
      · rintro v' ⟨rfl, h⟩
        exact ⟨hv, h⟩
  · rintro fault t ⟨ht, -⟩
    exact .refused ht (by simp)

theorem insert_ends (n : Negotiation) :
    Ends (m.insert env n) s fun r t => (f.Keeps s t ∧ ∀ w, r ≠ .ok (.ok w)) ∨
      ∃ w stamp, r = .ok (.ok w) ∧ f.Confined s t ∧ (f.store s).Opened w (f.store t) ∧
        w = { n with
          role := some m.role, stateCount := 1, stateTimestamp := stamp, createdAt := stamp } := by
  refine h.now.bind_ends fun now t ht => ?_
  refine (h.save _ "" t).bind ?_ ?_
  · rintro (error | saved) u ⟨hu, hw⟩
    · rcases hw with ⟨hs, -⟩ | ⟨w, hw, -⟩
      · exact .inl ⟨ht.trans ⟨hu, hs⟩, by simp⟩
      · cases hw
    · rcases hw with ⟨-, hw⟩ | ⟨w, hw, hsaved⟩
      · exact absurd rfl (hw saved)
      · cases hw
        obtain ⟨ho, rfl⟩ := Store.Opened.of_saved hsaved rfl
        refine (h.report _).bind_ends fun _ u' hu' => ?_
        refine (m.wake_quiet h).bind_ends fun _ u'' hu'' => ?_
        have hk := hu'.trans hu''
        refine .inr ⟨_, now.toMillis, rfl, ht.toConfined.trans (hu.trans hk.toConfined), ?_, rfl⟩
        exact hk.store.symm ▸ ht.store ▸ ho
  · rintro fault u ⟨hu, ⟨hs, -⟩ | ⟨w, hw, -⟩⟩
    · exact .inl ⟨ht.trans ⟨hu, hs⟩, by simp⟩
    · cases hw

theorem freshId_quiet : f.Quiet env.freshId := by
  intro s
  refine (h.freshId s).mono ?_
  rintro r t ⟨ht, k, -, -, hr⟩
  exact ⟨ht, _, hr⟩

theorem identified_quiet (offer : Offer) : f.Quiet (identified env offer) := by
  unfold identified
  split
  · exact (freshId_quiet h).bind fun _ => Focus.quiet_pure _
  · exact Focus.quiet_pure _

theorem initiate_ends (request : ContractRequest) :
    Ends (m.initiate env request) s (f.Effect ids s (fun _ _ => False)
      (fun w => ∃ address offer, w.Starts m.role .requesting "" address offer)
      fun _ => False) := by
  unfold initiate
  split
  · exact .refused (.refl s) (by simp)
  · rename_i offer _
    split
    · exact .refused (.refl s) (by simp)
    · refine (h.freshId s).bind ?_ ?_
      · rintro id t ⟨ht, k, hle, hlt, hk⟩
        refine (identified_quiet h offer).bind_ends fun offer t' ht' => ?_
        refine (m.insert_ends h _).mono ?_
        have hs := ht.trans ht'
        rintro r u (⟨hu, hr⟩ | ⟨w, stamp, rfl, hu, ho, hw⟩)
        · exact .refused (hs.trans hu) hr
        · refine .opened w k (hs.toConfined.trans hu) hle ?_ ?_ ?_ (hs.store ▸ ho)
          · exact Nat.lt_of_lt_of_le hlt (Nat.le_trans ht'.issued hu.issued)
          · rw [hw]
            exact Except.ok.inj hk
          · exact ⟨request.counterPartyAddress, offer, by constructor <;> rw [hw]⟩
      · rintro fault t ⟨-, k, -, -, hk⟩
        cases hk

def Repeated (v : Negotiation) (offer : Offer) : Prop :=
  v.state = .consumerRequested ∧ repeatsLastOffer v offer = true

theorem requested_ends (hs : (f.store s).Tidy) (token : ClaimToken) (message : RequestMessage) :
    Ends (m.requested env token message) s (f.Effect ids s
      (fun v event => m.Correlated (f.store s) message.processId v ∧
        ∃ offer, message.offer = some offer ∧ event = .requestReceived offer)
      (fun w => m.own ((f.store s).findByCorrelation? message.processId) = none ∧
        message.processId ≠ "" ∧ ∃ offer, message.offer = some offer ∧
          w.Starts m.role .consumerRequested message.processId message.callbackAddress offer)
      fun v => m.Correlated (f.store s) message.processId v ∧
        ∃ offer, message.offer = some offer ∧ Repeated v offer) := by
  unfold requested
  split
  · exact .refused (.refl s) (by simp)
  · rename_i hid
    split
    · exact .refused (.refl s) (by simp)
    · rename_i offer hoffer
      refine (m.findCorrelated_ends h message.processId).bind ?_ ?_
      · rintro found t ⟨ht, hf⟩
        have hf := (hf found rfl).symm
        cases found with
        | some v =>
          have hv : m.Correlated (f.store s) message.processId v := m.own_eq_some.mp hf
          dsimp only
          split
          · rename_i hr
            exact .kept v ht ⟨hv, offer, hoffer, hr.1, hr.2⟩
          · refine (m.apply_ends h _ (ht.store.symm ▸ hv.includes hs)).mono fun r u hu => ?_
            refine (hu.after ht).mono ?_ (fun _ h => h.elim) ?_
            · rintro v' event ⟨rfl, rfl⟩
              exact ⟨hv, offer, hoffer, rfl⟩
            · rintro v' ⟨-, -, reason, hreason⟩
              cases hreason
        | none =>
          dsimp only
          generalize (if token.clientId ≠ "" then token.clientId else message.connectorId) = c
          split
          · exact .refused ht (by simp)
          · split
            · exact .refused ht (by simp)
            · refine (h.freshId t).bind ?_ ?_
              · rintro id t' ⟨ht', k, hle, hlt, hk⟩
                refine (m.insert_ends h _).mono ?_
                have hs := ht.trans ht'
                rintro r u (⟨hu, hr⟩ | ⟨w, stamp, rfl, hu, ho, hw⟩)
                · exact .refused (hs.trans hu) hr
                · refine .opened w k (hs.toConfined.trans hu) (Nat.le_trans ht.issued hle)
                    (Nat.lt_of_lt_of_le hlt hu.issued) ?_ ?_ (hs.store ▸ ho)
                  · rw [hw]
                    exact Except.ok.inj hk
                  · exact ⟨hf, hid, offer, hoffer, by constructor <;> rw [hw]⟩
              · rintro fault t ⟨-, k, -, -, hk⟩
                cases hk
      · rintro fault t ⟨ht, -⟩
        exact .refused ht (by simp)

theorem counterOffer_ends (id : String) (offer : Offer) :
    Ends (m.counterOffer env id offer) s (f.Effect ids s
      (fun v event => (f.store s).find? id = some v ∧ v.role = some m.role ∧
        ∃ offer, event = .counterOffer offer)
      (fun _ => False) fun _ => False) := by
  refine (m.findOwned_ends h id).bind ?_ ?_
  · rintro found t ⟨ht, hf⟩
    cases found with
    | none => exact .refused ht (by simp)
    | some v =>
      obtain ⟨hv, hrole⟩ := hf v rfl
      refine (identified_quiet h offer).bind_ends fun offer t' ht' => ?_
      have hk := ht.trans ht'
      have hi : (f.store t').Includes v := by
        rw [hk.store]
        exact Store.includes_of_find? (Store.id_of_find? hv ▸ hv)
      refine (m.apply_ends h (.counterOffer offer) hi).mono fun r u hu => ?_
      refine (hu.after hk).mono ?_ (fun _ h => h) ?_
      · rintro v' event ⟨rfl, rfl⟩
        exact ⟨hv, hrole, offer, rfl⟩
      · rintro v' ⟨-, -, reason, hreason⟩
        cases hreason
  · rintro fault t ⟨ht, -⟩
    exact .refused ht (by simp)

end Manager

end ContractNegotiation
