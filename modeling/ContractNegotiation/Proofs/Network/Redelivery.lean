import ContractNegotiation.Proofs.Manager.Alike
import ContractNegotiation.Proofs.Network.Answer

namespace ContractNegotiation

open ContractNegotiation.Action

inductive Negotiation.Took (w : Negotiation) : RemoteMessage → Prop where
  | request (m : RequestMessage) (offer last : Offer) : m.offer = some offer →
      w.role = some .provider → w.state = .consumerRequested → w.lastOffer? = some last →
      last.id = offer.id → Took w (.request m)
  | offer (m : OfferMessage) : w.role = some .consumer → w.state = .offered → Took w (.offer m)
  | agreement (m : AgreementMessage) : (m.agreement.getD {}).id ≠ "" →
      w.role = some .consumer → w.state = .agreed → Took w (.agreement m)
  | verification (m : VerificationMessage) : w.role = some .provider → w.state = .verified →
      Took w (.verification m)
  | event (m : EventMessage) : w.role = some .consumer → w.state = .finalized → Took w (.event m)
  | termination (m : TerminationMessage) (role : Role) : w.role = some role →
      w.state = .terminated → Took w (.termination m)

/-- Messages that are recognized when they come again: terminations, and requests whose offer has an
id. -/
def RemoteMessage.Recognized : RemoteMessage → Prop
  | .request m => ∃ offer, m.offer = some offer ∧ offer.id ≠ ""
  | .termination _ => True
  | _ => False

namespace Negotiation

variable {v w : Negotiation} {event : Event} {agreementId : String} {m : RemoteMessage}

theorem Follows.took {role : Role} (h : v.Follows event agreementId "" w)
    (hrole : v.role = some role) (hm : m.Means role event) : w.Took m := by
  obtain ⟨now, next, message, ht, rfl⟩ := h
  have hrow := row_of_transition ht
  have hr : (v.successor next "").role = some role := by
    simpa only [successor_eq, hrow.continues.role] using hrole
  have hs (s : State) (h : next.stateCode = s.code) : (v.successor next "").state = s := by
    rw [state, successor_eq]
    simp only [h, State.ofCode_code]
  cases hm with
  | request m offer ho =>
    cases hrow
    exact .request m offer offer ho hr (hs _ rfl) (by simp [successor_eq, lastOffer?, addOffer]) rfl
  | offer m =>
    cases hrow
    exact .offer m hr (hs _ rfl)
  | agreement m hid =>
    cases hrow
    exact .agreement m hid hr (hs _ rfl)
  | verification m =>
    cases hrow
    exact .verification m hr (hs _ rfl)
  | event m =>
    cases hrow
    exact .event m hr (hs _ rfl)
  | termination m =>
    cases hrow
    exact .termination m role hr (hs _ rfl)

end Negotiation

namespace Store

variable {s t : Store} {v w : Negotiation} {event : Event} {agreementId : String}
  {m : RemoteMessage}

theorem Welcomes.took (h : s.Welcomes m w) : w.Took m := by
  obtain ⟨request, offer, rfl, ho, -, -, hw⟩ := h
  refine .request request offer offer ho hw.role ?_ ?_ rfl
  · rw [Negotiation.state, hw.stateCode, State.ofCode_code]
  · rw [Negotiation.lastOffer?, hw.offers]
    rfl

theorem Knows.took {role : Role} (h : s.Knows m v) (hrole : v.role = some role) : v.Took m := by
  rcases h with ⟨-, ⟨request, offer, rfl, ho, hr, hs, hlast⟩ | ⟨hs, termination, rfl⟩⟩
  · unfold Manager.repeatsLastOffer at hlast
    split at hlast
    · cases hlast
    · rename_i last hl
      simp only [Bool.and_eq_true, decide_eq_true_eq] at hlast
      exact .request request offer last ho hr hs hl hlast.2
  · exact .termination termination role hrole hs

theorem findByCorrelation?_of_forall {c : String} (hc : c ≠ "") (hw : w ∈ s.records)
    (hwc : w.correlationId = c) (hone : ∀ x ∈ s.records, x.correlationId = c → x = w) :
    s.findByCorrelation? c = some w := by
  obtain ⟨x, hx⟩ := exists_findByCorrelation? hw (hwc ▸ hc)
  rw [hwc] at hx
  obtain ⟨hmem, hxc, -⟩ := correlationId_of_findByCorrelation? hx
  rw [hx, hone x hmem hxc]

theorem Moved.findByCorrelation? {c : String} (h : s.Moved v event agreementId "" w t)
    (hv : s.findByCorrelation? c = some v)
    (hone : ∀ x ∈ s.records, x.correlationId = c → x = v) : t.findByCorrelation? c = some w := by
  obtain ⟨-, hvc, hc⟩ := correlationId_of_findByCorrelation? hv
  have hwc : w.correlationId = c := by
    obtain ⟨now, next, message, ht, rfl⟩ := h.follows
    rw [Negotiation.successor, Negotiation.correlate_empty]
    exact ((Negotiation.row_of_transition ht).continues.correlationId).trans hvc
  have hw : t.find? w.id = some w := by rw [h.find?, if_pos rfl]
  apply findByCorrelation?_of_forall hc (mem_of_find? hw) hwc
  intro x hx hxc
  rw [h.store] at hx
  obtain ⟨y, hy, rfl⟩ := List.mem_map.mp hx
  split
  · rfl
  · rename_i hid
    rw [if_neg hid] at hxc
    rw [hone y hy hxc, h.follows.id] at hid
    exact absurd rfl hid

theorem Opened.findByCorrelation? {c : String} (h : s.Opened w t) (hc : c ≠ "")
    (hwc : w.correlationId = c) (hnone : ∀ x ∈ s.records, x.correlationId ≠ c) :
    t.findByCorrelation? c = some w := by
  have hw : t.find? w.id = some w := by rw [h.find?, if_pos rfl]
  apply findByCorrelation?_of_forall hc (mem_of_find? hw) hwc
  intro x hx hxc
  rw [h.store] at hx
  rcases List.mem_cons.mp hx with rfl | hx
  · rfl
  · exact absurd hxc (hnone x hx)

end Store

namespace Service.Call

def message? : Call → Option RemoteMessage
  | initiate _ | counterOffer .. => none
  | requested m _ => some (.request m)
  | offered m => some (.offer m)
  | agreed m => some (.agreement m)
  | verified m => some (.verification m)
  | finalized m => some (.event m)
  | terminated m => some (.termination m)

theorem reception {σ ρ : Type} {f : Focus σ ρ} {ids : Nat → String} {env : Environment σ} {s : σ}
    (h : env.Lawful ids f) {c : Connector} (hc : c.Typed) (hs : (f.store s).Tidy) {call : Call}
    {m : RemoteMessage} (hm : call.message? = some m) :
    Ends (call.answer c env) s (Reception f ids s m) := by
  cases call with
  | initiate request => cases hm
  | counterOffer id offer => cases hm
  | requested m token =>
    cases hm
    exact requested_ends h c hc hs m token
  | offered m =>
    cases hm
    exact call_effect h _ _ (correlated_ends h hs hc.consumer (.offer m))
  | agreed m =>
    cases hm
    exact agreed_ends h c hc hs m
  | verified m =>
    cases hm
    exact call_effect h _ _ (correlated_ends h hs hc.provider (.verification m))
  | finalized m =>
    cases hm
    exact call_effect h _ _ (correlated_ends h hs hc.consumer (.event m))
  | terminated m =>
    cases hm
    exact terminated_ends h c hc hs m

end Service.Call

namespace Network

variable {n : Nat} {ids : Nat → String} {i : Fin n} {net net' start : Network n}
  {v w : Negotiation}

structure Repeats (i : Fin n) (net : Network n) (w : Negotiation) (m : RemoteMessage)
    (r : Except Refusal Negotiation) (net' : Network n) : Prop
    extends Alters i (net.site i) net net' where
  answer : r = .ok w ∨ ∃ refusal, r = .error refusal ∧ refusal.reason = .conflict
  recognized : m.Recognized → r = .ok w

theorem findCorrelated_found {manager : Manager} {role : Role} {c : String}
    (hr : manager.role = role) (hw : (net.site i).store.findByCorrelation? c = some w)
    (hrole : w.role = some role) :
    Yields (manager.findCorrelated (environment ids i) c) net fun found net' =>
      found = some w ∧ net' = net := by
  apply (findCorrelated_yields manager c).mono
  rintro found t ⟨rfl, rfl⟩
  exact ⟨manager.own_eq_some.mpr ⟨hw, hr ▸ hrole⟩, rfl⟩

theorem apply_rejects (manager : Manager) {event : Event} {m : RemoteMessage}
    (hd : w.drawsId event = false) (ht : w.transition event net.now "" = .rejected)
    (hm : ¬ m.Recognized) :
    Yields (manager.apply (environment ids i) w event) net (Repeats i net w m) := by
  apply (apply_yields manager hd).mono
  rintro r net' ⟨rfl, ha⟩
  simp only [Site.apply, ht] at ha ⊢
  exact ⟨ha, .inr ⟨_, rfl, rfl⟩, fun h => absurd h hm⟩

theorem applyCorrelated_rejects {manager : Manager} {role : Role} {c : String} {event : Event}
    {m : RemoteMessage} (hr : manager.role = role)
    (hw : (net.site i).store.findByCorrelation? c = some w) (hrole : w.role = some role)
    (hd : w.drawsId event = false) (ht : w.transition event net.now "" = .rejected)
    (hm : ¬ m.Recognized) :
    Yields (manager.applyCorrelated (environment ids i) c event) net (Repeats i net w m) := by
  apply (findCorrelated_found hr hw hrole).bind
  rintro _ t ⟨rfl, rfl⟩
  exact apply_rejects manager hd ht hm

theorem requested_repeats {manager : Manager} (hr : manager.role = .provider)
    (token : ClaimToken) {m : RequestMessage}
    (hw : (net.site i).store.findByCorrelation? m.processId = some w) (h : w.Took (.request m)) :
    Yields (manager.requested (environment ids i) token m) net (Repeats i net w (.request m)) := by
  obtain ⟨-, -, hid⟩ := Store.correlationId_of_findByCorrelation? hw
  cases h with
  | request m offer last ho hrole hs hl hlast =>
    simp only [Manager.requested, hid, if_false, ho]
    apply (findCorrelated_found hr hw hrole).bind
    rintro _ t ⟨rfl, rfl⟩
    dsimp only
    split
    · exact yields_pure.mpr ⟨.refl t, .inl rfl, fun _ => rfl⟩
    · rename_i hnew
      apply apply_rejects manager rfl
      · simp [Negotiation.transition, hs]
      · rintro ⟨offer', ho', hne⟩
        cases ho.symm.trans ho'
        exact hnew ⟨hs, by simp [Manager.repeatsLastOffer, hl, hlast, hne]⟩

theorem terminated_repeats {c : Connector} (hc : c.Typed) {m : TerminationMessage}
    (hw : (net.site i).store.findByCorrelation? m.processId = some w)
    (h : w.Took (.termination m)) :
    Yields (Service.terminated c (environment ids i) m) net
      (Repeats i net w (.termination m)) := by
  apply call_yields
  have hfind : Yields ((environment ids i).findByCorrelation m.processId) net fun found net' =>
      found = some w ∧ net' = net := ⟨_, _, rfl, hw, rfl⟩
  apply hfind.bind
  rintro _ t ⟨rfl, rfl⟩
  cases h with
  | termination m role hrole hs =>
    simp only [hrole]
    apply (findCorrelated_found (hc.manager role) hw hrole).bind
    rintro _ t ⟨rfl, rfl⟩
    apply (apply_yields (c.manager role) rfl).mono
    rintro r net' ⟨rfl, ha⟩
    simp only [Site.apply, Negotiation.transition, hs, if_true] at ha ⊢
    exact ⟨ha, .inl rfl, fun _ => rfl⟩

theorem answer_repeats {c : Connector} (hc : c.Typed) {call : Service.Call} {m : RemoteMessage}
    (hm : call.message? = some m)
    (hw : (net.site i).store.findByCorrelation? m.processId = some w) (h : w.Took m) :
    Yields (call.answer c (environment ids i)) net (Repeats i net w m) := by
  cases call with
  | initiate request => cases hm
  | counterOffer id offer => cases hm
  | requested m token =>
    cases hm
    exact call_yields _ _ (requested_repeats hc.provider token hw h)
  | offered m =>
    cases hm
    cases h with
    | offer m hrole hs =>
      refine call_yields _ _ (applyCorrelated_rejects hc.consumer hw hrole rfl ?_ not_false)
      simp [Negotiation.transition, hs]
  | agreed m =>
    cases hm
    cases h with
    | agreement m hid hrole hs =>
      apply call_yields
      rw [Manager.agreed, if_neg hid]
      refine applyCorrelated_rejects hc.consumer hw hrole rfl ?_ not_false
      simp [Negotiation.transition, hs]
  | verified m =>
    cases hm
    cases h with
    | verification m hrole hs =>
      refine call_yields _ _ (applyCorrelated_rejects hc.provider hw hrole rfl ?_ not_false)
      simp [Negotiation.transition, hs]
  | finalized m =>
    cases hm
    cases h with
    | event m hrole hs =>
      refine call_yields _ _ (applyCorrelated_rejects hc.consumer hw hrole rfl ?_ not_false)
      simp [Negotiation.transition, hs]
  | terminated m =>
    cases hm
    exact terminated_repeats hc hw h

theorem took_of_answer {c : Connector} (hc : c.Typed) (hs : (net.site i).store.Tidy)
    {call : Service.Call} {m : RemoteMessage} (hm : call.message? = some m)
    (hone : ∀ v ∈ (net.site i).store.records, ∀ w ∈ (net.site i).store.records,
      v.correlationId = m.processId → w.correlationId = m.processId → v = w)
    (htyped : ∀ v ∈ (net.site i).store.records, ∃ role, v.role = some role)
    (hrequest : ∀ request, m = .request request → ∀ v ∈ (net.site i).store.records,
      v.correlationId = m.processId → v.role = some .provider)
    (hfirst : call.answer c (environment ids i) net = .ok (.ok w) net') :
    (net'.site i).store.findByCorrelation? m.processId = some w ∧ w.Took m := by
  have h := Service.Call.reception (environment_lawful ids i) hc hs hm
  unfold Ends at h
  rw [hfirst] at h
  cases h with
  | refused hk hr => exact absurd rfl (hr w)
  | kept v hk hv =>
    obtain ⟨role, hrole⟩ := htyped w (Store.correlationId_of_findByCorrelation? hv.1).1
    have hstore : (net'.site i).store = (net.site i).store := hk.store
    rw [hstore]
    exact ⟨hv.1, hv.took hrole⟩
  | moved v w event agreementId hconf hv hid hmoved =>
    obtain ⟨hf, role, hrole, hmeans⟩ := hv
    obtain ⟨hmem, hvc, -⟩ := Store.correlationId_of_findByCorrelation? hf
    exact ⟨hmoved.findByCorrelation? hf fun x hx hxc => hone x hx v hmem hxc hvc,
      hmoved.follows.took hrole hmeans⟩
  | opened w k hconf hle hlt hid hw ho =>
    have htook := hw.took
    obtain ⟨request, offer, rfl, hoffer, hprocess, hnone, hw⟩ := hw
    refine ⟨ho.findByCorrelation? hprocess hw.correlationId fun x hx hxc => ?_, htook⟩
    obtain ⟨y, hy⟩ := Store.exists_findByCorrelation? hx (hxc ▸ hprocess)
    rw [hxc] at hy
    obtain ⟨hmem, hyc, -⟩ := Store.correlationId_of_findByCorrelation? hy
    exact hnone y hy (hrequest _ rfl y hmem hyc)

/-- A message that has been acknowledged may be delivered again, with any token and at any time: the
connector stays as the first delivery left it. The answer is the record or a conflict. -/
theorem redelivery_harmless {connectors : Vector Connector n} {draws : Nat → Identifier}
    (hc : (connectors.get i).Typed) (hstart : (start.site i).store.records = [])
    (hrun : Runs (.drawing connectors draws) i start net) {call again : Service.Call}
    {m : RemoteMessage} (hm : call.message? = some m) (hm' : again.message? = some m)
    (hone : ∀ v ∈ (net.site i).store.records, ∀ w ∈ (net.site i).store.records,
      v.correlationId = m.processId → w.correlationId = m.processId → v = w)
    (hrequest : ∀ request, m = .request request → ∀ v ∈ (net.site i).store.records,
      v.correlationId = m.processId → v.role = some .provider)
    (hfirst : call.answer (connectors.get i) (environment (Roster.drawing connectors draws).ids i)
      net = .ok (.ok w) net') (later : Instant) :
    (net'.site i).store.find? w.id = some w ∧
      Yields (again.answer (connectors.get i)
        (environment (Roster.drawing connectors draws).ids i)) { net' with now := later }
        fun r net'' => (focus i).Confined { net' with now := later } net'' ∧
          net''.site i = net'.site i ∧
          (r = .ok w ∨ ∃ refusal, r = .error refusal ∧ refusal.reason = .conflict) ∧
          (m.Recognized → r = .ok w) := by
  have hs := (hrun.evolves hc (Store.tidy_of_records hstart)).tidy (Store.tidy_of_records hstart)
  have htyped (v : Negotiation) (hv : v ∈ (net.site i).store.records) :
      ∃ role, v.role = some role := by
    obtain ⟨role, hrole, -⟩ := (wellFormed_of_runs hc hstart hrun v hv).branch
    exact ⟨role, hrole⟩
  obtain ⟨hw, htook⟩ := took_of_answer hc hs hm hone htyped hrequest hfirst
  constructor
  · obtain ⟨r, t, hr, hreplies⟩ : Yields (call.answer (connectors.get i)
        (environment (Roster.drawing connectors draws).ids i)) net (Replies i net) :=
      answer_replies _ hs call
    rw [hfirst] at hr
    cases hr
    exact hreplies.site.granted_of_ok.found
  · have hagain : Yields (again.answer (connectors.get i)
        (environment (Roster.drawing connectors draws).ids i)) { net' with now := later }
        (Repeats i { net' with now := later } w m) := answer_repeats hc hm' hw htook
    apply hagain.mono
    intro r net'' h
    exact ⟨h.toConfined, h.site, h.answer, h.recognized⟩

/-- A request by somebody else, at a connector that awaits the answer to one of its own. -/
def crossRequest : RequestMessage where
  processId := "other"
  connectorId := "o"
  callbackAddress := "http://o"
  offer := some { id := "offer" }

theorem redelivery_harmless_of_sent : ∃ w net',
    Service.requested loneConnector (environment loneRoster.ids 0) crossRequest {} sent =
        .ok (.ok w) net' ∧
      w.state = .consumerRequested ∧
      Yields (Service.requested loneConnector (environment loneRoster.ids 0) crossRequest
        { claims := [("client_id", "o")] }) { net' with now := ⟨5⟩ } fun r net'' =>
          net''.site 0 = net'.site 0 ∧ r = .ok w := by
  have hrun : Runs loneRoster 0 vacant sent := runs_asked.round .consumer _ fun _ s => .done s
  have hone : ∀ v ∈ (sent.site 0).store.records, v.correlationId ≠ "other" := by decide +kernel
  have htidy : (sent.site 0).store.Tidy := by
    unfold Store.Tidy
    decide +kernel
  have hstate : (((Service.requested loneConnector (environment loneRoster.ids 0) crossRequest
      {}).outcome sent).toOption.bind Except.toOption).map Negotiation.state =
        some .consumerRequested := by decide +kernel
  obtain ⟨r, net', hfirst, -⟩ : Yields (Service.requested loneConnector
      (environment loneRoster.ids 0) crossRequest {}) sent (Replies 0 sent) :=
    answer_replies loneConnector htidy (.requested crossRequest {})
  rw [Action.outcome, hfirst] at hstate
  cases r with
  | error refusal => cases hstate
  | ok w =>
    have hm : (Service.Call.requested crossRequest {}).message? = some
      (.request crossRequest) := rfl
    have hm' : (Service.Call.requested crossRequest { claims := [("client_id", "o")] }).message? =
        some (.request crossRequest) := rfl
    have hagain := redelivery_harmless lone_typed records_vacant hrun hm hm'
      (fun v hv _ _ hvc => absurd hvc (hone v hv)) (fun _ _ v hv hvc => absurd hvc (hone v hv))
      hfirst ⟨5⟩
    refine ⟨w, net', hfirst, Option.some.inj hstate, hagain.2.mono ?_⟩
    rintro r net'' ⟨-, hsite, -, hr⟩
    exact ⟨hsite, hr ⟨_, rfl, by decide⟩⟩

end Network

end ContractNegotiation
