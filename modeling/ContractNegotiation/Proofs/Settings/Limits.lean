import ContractNegotiation.Host
import ContractNegotiation.Proofs.Manager.Limits

namespace ContractNegotiation

def permitted (given : UInt32) : Nat := if given.toNat < 0x80000000 then given.toNat else 1

/-- How an option that steers a loop stands to the count that was configured for it: they are equal,
or the count was taken for a negative number. -/
structure Counted (given : UInt32) (option : Int) : Prop where
  positive : 1 ≤ given.toNat
  kept : given.toNat < 0x80000000 → option = given.toNat
  lost : 0x80000000 ≤ given.toNat → option = given.toNat - 0x100000000

structure Kept (given : UInt32) (option : Int) : Prop where
  positive : 1 ≤ given.toNat
  eq : option = given.toNat

structure Carries (given : ManagerSettings) (o : Options) : Prop where
  batchSize : Kept given.batchSize o.batchSize
  commandBatchSize : Kept given.commandBatchSize o.commandBatchSize
  workers : Kept given.workers o.workers
  pollInterval : Kept given.pollIntervalMs o.pollInterval
  retryBaseDelay : Kept given.retryBaseDelayMs o.retryBaseDelay
  retryMaxDelay : Kept given.retryMaxDelayMs o.retryMaxDelay
  maxRetries : Counted given.maxRetries o.maxRetries
  commandMaxAttempts : Counted given.commandMaxAttempts o.commandMaxAttempts

section Counts

variable {given : UInt32} {option : Int}

theorem ManagerSettings.one_le_orStandard (n : UInt32) {standard : UInt32} (h : standard ≠ 0) :
    1 ≤ (orStandard n standard).toNat := by
  have hne : orStandard n standard ≠ 0 := by
    unfold orStandard
    split
    · exact h
    · assumption
  exact Nat.pos_of_ne_zero fun hzero => hne (UInt32.toNat_inj.mp hzero)

theorem counted_toInt32 (h : 1 ≤ given.toNat) : Counted given given.toInt32.toInt := by
  have hvalue : given.toInt32.toInt =
      if 2 * given.toNat < 2 ^ 32 then (given.toNat : Int) else given.toNat - (2 ^ 32 : Nat) :=
    BitVec.toInt_eq_toNat_cond given.toBitVec
  refine ⟨h, fun hsmall => ?_, fun hlarge => ?_⟩
  · rw [hvalue, if_pos (by omega)]
  · rw [hvalue, if_neg (by omega)]
    rfl

theorem Counted.permitted_eq (h : Counted given option) :
    (permitted given : Int) = max 1 option := by
  have hpositive := h.positive
  have hlt := given.toNat_lt
  unfold permitted
  split
  · rw [h.kept ‹_›]
    omega
  · rw [h.lost (by omega)]
    omega

end Counts

theorem carries_ofSettings (s : Settings) :
    Carries s.withDefaults.managerOrDefault (.ofSettings s.withDefaults) := by
  have hpositive {n standard : UInt32} (h : standard ≠ 0) :=
    ManagerSettings.one_le_orStandard n h
  exact {
    batchSize := ⟨hpositive (by decide), rfl⟩
    commandBatchSize := ⟨hpositive (by decide), rfl⟩
    workers := ⟨hpositive (by decide), rfl⟩
    pollInterval := ⟨hpositive (by decide), rfl⟩
    retryBaseDelay := ⟨hpositive (by decide), rfl⟩
    retryMaxDelay := ⟨hpositive (by decide), rfl⟩
    maxRetries := counted_toInt32 (hpositive (by decide))
    commandMaxAttempts := counted_toInt32 (hpositive (by decide)) }

/-- Whatever is configured, the managers carry each limit as it is given, except that a great count
of retries or of tries is taken for a negative number. What is repeated is repeated just as often as
the count says, and is not repeated at all if the count was taken for a negative number. -/
theorem limits_reach_managers (s : Settings) (role : Role) (id id' : String) :
    let given := s.withDefaults.managerOrDefault
    let m := (Connector.ofSettings s.withDefaults id id').manager role
    Carries given m.options ∧ m.WithinLimits (permitted given.maxRetries)
      (permitted given.commandMaxAttempts) given.commandBatchSize.toNat := by
  intro given m
  have hm : m.leaseHolder ≠ "" := by
    cases role <;> exact Manager.leaseHolder_create _ _ _
  have hoptions : m.options = .ofSettings s.withDefaults := by cases role <;> rfl
  have hcarries : Carries given m.options := hoptions ▸ carries_ofSettings s
  have hmessages : m.options.backoff.limit = permitted given.maxRetries := by
    have hpermitted := hcarries.maxRetries.permitted_eq
    simp only [Backoff.limit, Options.backoff]
    omega
  have htries : (max 1 m.options.commandMaxAttempts).toNat =
      permitted given.commandMaxAttempts := by
    have hpermitted := hcarries.commandMaxAttempts.permitted_eq
    omega
  have hbatch : m.options.commandBatchSize = given.commandBatchSize.toNat :=
    Int.ofNat_inj.mp hcarries.commandBatchSize.eq
  have hlimits := m.withinLimits_options hm
  rw [hmessages, htries, hbatch] at hlimits
  exact ⟨hcarries, hlimits⟩

theorem limits_reach_managers_of_two : ∃ s : Settings, s.withDefaults.validate = .ok () ∧
    let m := (Connector.ofSettings s.withDefaults "" "").manager .consumer
    (∃ j : Journal 1, m.Alone (fun _ => "") 0 j ∧ (sendings "n" 1 j.deeds).length = 2 ∧
      ∃ holder w, (holder, w) ∈ successors "n" 1 j.deeds ∧ w.state = .error) ∧
    ∃ (j : Journal 1) (d : Docket),
      m.Runs (Journal.environment (fun _ => "") 0) (Journal.desk 0 m.role) j d ∧
        Docket.tryCount d.tries 0 = 2 ∧ 0 ∉ d.waiting := by
  let s : Settings := {
    manager := some { maxRetries := 2, commandMaxAttempts := 2 }
    connector := some { participantId := "a", address := "b" } }
  let m := (Connector.ofSettings s.withDefaults "" "").manager .consumer
  let n : Negotiation := { id := "n", role := some .consumer, stateCode := 100, stateCount := 1 }
  obtain ⟨-, hlimits⟩ := limits_reach_managers s .consumer "" ""
  refine ⟨s, by decide, ?_, ?_⟩
  · let answer (j : Journal 1) (_ : RemoteMessage) := (DispatchResult.transient "down", j.network)
    have hanswer (j : Journal 1) (message : RemoteMessage) :
        j.network.now ≤ (answer j message).2.now ∧ (j.desk 0 m.role).Apart m
          (Journal.desk 0 m.role { j with network := (answer j message).2 }) :=
      ⟨Int.le_refl _, id, fun _ => rfl, fun _ _ => rfl, rfl⟩
    have h : m.Alone (fun _ => "") 0
        { network := { sites := #v[{ store := { records := [n] } }] } } :=
      .start _ rfl rfl (List.nodup_singleton _) (by decide +kernel) fun _ => rfl
    have h := h.round answer hanswer
    have h := h.elsewhere { (_ : Journal 1) with network.now := .ofMillis 1000 }
      ⟨id, fun _ => rfl, fun _ _ => rfl, rfl⟩ rfl rfl
    have h := h.round answer hanswer
    obtain ⟨j, h, hanswers⟩ : ∃ j : Journal 1, m.Alone (fun _ => "") 0 j ∧
        (sendings "n" 1 j.deeds).map Sending.answer = [.transient "down", .transient "down"] :=
      ⟨_, h, by decide +kernel⟩
    have hlength : (sendings "n" 1 j.deeds).length = 2 := by
      simpa using congrArg List.length hanswers
    have hfailed : ∀ s ∈ sendings "n" 1 j.deeds, s.Failed := by
      intro s hs
      have hmem : s.answer ∈ (sendings "n" 1 j.deeds).map Sending.answer :=
        List.mem_map_of_mem hs
      exact ⟨"down", by simpa [hanswers] using hmem⟩
    exact ⟨j, h, hlength, (hlimits.failsAfter h (by decide) hfailed).error.mpr hlength⟩
  · have h : m.Runs (Journal.environment (fun _ => "") 0) (Journal.desk 0 m.role)
        { network := { sites := #v[{ store := { records := [n] } }] }
          refusals := [some (.stale 1 2), some (.stale 1 2)] } {} := .start _ rfl
    have h := h.enqueue (.cancel "n")
    have h := h.round (fun _ => pure (.ok "")) fun _ _ => rfl
    have h := h.round (fun _ => pure (.ok "")) fun _ _ => rfl
    obtain ⟨j, d, h, hk, htries, hlost⟩ : ∃ (j : Journal 1) (d : Docket),
        m.Runs (Journal.environment (fun _ => "") 0) (Journal.desk 0 m.role) j d ∧
          0 < d.enqueued.length ∧ Docket.tryCount d.tries 0 = 2 ∧ ∀ t ∈ d.tries, t.ticket = 0 →
            t.before.losesRace m (d.enqueued.getD 0 default) = true :=
      ⟨_, _, h, by decide +kernel, by decide +kernel, by decide +kernel⟩
    have hwaiting := (hlimits.loses h hk hlost).2
    refine ⟨j, d, h, htries, ?_⟩
    rw [hwaiting, htries]
    decide

/-- A count of retries that does not fit. -/
theorem limits_overflow : ∃ s : Settings, s.withDefaults.validate = .ok () ∧
    (Options.ofSettings s.withDefaults).maxRetries ≠
      s.withDefaults.managerOrDefault.maxRetries.toNat :=
  ⟨{ manager := some { maxRetries := 2147483648 }
     connector := some { participantId := "a", address := "b" } }, by decide, by decide⟩

end ContractNegotiation
