import ContractNegotiation.Proofs.Network.Round

namespace ContractNegotiation

open ContractNegotiation.Action Negotiation

namespace Site

variable {s t u : Site} {role : Role} {m : Manager} {now : Instant} {id holder : String}
  {c : QueuedCommand} {v : Negotiation}

def Forgets (s t : Site) : Prop := ∀ r key,
  (t.workload r).retries.entries.get? key = (s.workload r).retries.entries.get? key ∨
    (t.workload r).retries.entries.get? key = none

structure Forgives (s t : Site) : Prop where
  retries : s.Forgets t
  failed : ∀ v, v.state = .error → t.store.find? v.id = some v → s.store.find? v.id = some v

theorem Forgives.refl (s : Site) : s.Forgives s := ⟨fun _ _ => .inl rfl, fun _ _ h => h⟩

theorem forgives_of_records (hr : s.Forgets t) (hrec : t.store.records = s.store.records) :
    s.Forgives t := by
  refine ⟨hr, fun v _ hv => ?_⟩
  simpa only [Store.find?, hrec] using hv

theorem forgives_of_write (hr : s.Forgets t)
    (hfind : ∀ key, t.store.find? key = if key = v.id then some v else s.store.find? key)
    (hstate : v.state ≠ .error) : s.Forgives t := by
  refine ⟨hr, fun x hx hf => ?_⟩
  rw [hfind] at hf
  split at hf
  · obtain rfl := Option.some.inj hf
    exact absurd hx hstate
  · exact hf

theorem forgives_mapQueue (s : Site) (role : Role) (f : CommandQueue → CommandQueue) :
    s.Forgives (s.update role (·.mapQueue f)) := by
  apply forgives_of_records
  · intro r key
    rw [workload_update]
    split
    · rename_i hr
      exact .inl (hr ▸ rfl)
    · exact .inl rfl
  · rw [store_update]

theorem forgives_release (s : Site) (now : Instant) (holder id : String) :
    s.Forgives (s.release now holder id) := by
  apply forgives_of_records
  · intro r key
    rw [workload_release]
    exact .inl rfl
  · exact records_release holder

theorem Obeys.forgets (h : s.Obeys m c now t) : s.Forgets t := by
  cases h with
  | idle => exact (Forgives.refl s).retries
  | written _ _ _ _ _ _ _ _ hsaved =>
    exact ((eases_record hsaved.leases _ _).trans (eases_wake _ _)).retries
  | requeued => exact (forgives_mapQueue s m.role _).retries

end Site

namespace Network

variable {n : Nat} {roster : Roster n} {ids : Nat → String} {i j : Fin n}
  {net net' net'' : Network n} {site : Site} {drawn : Nat} {m : Manager}

structure Forgives (net net' : Network n) : Prop where
  issued : net.issued ≤ net'.issued
  sites : ∀ k, (net.site k).Forgives (net'.site k)

theorem Forgives.refl (net : Network n) : Forgives net net :=
  ⟨Nat.le_refl _, fun _ => .refl _⟩

theorem forgives_of_confined (hc : (focus j).Confined net net')
    (hs : (net.site j).Forgives (net'.site j)) : Forgives net net' := by
  refine ⟨hc.issued, fun k => ?_⟩
  by_cases hk : k = j
  · exact hk ▸ hs
  · rw [site_of_confined hc hk]
    exact .refl _

theorem forgives_of_alters (ha : Alters i site net net') (hs : (net.site i).Forgives site) :
    Forgives net net' := forgives_of_confined ha.toConfined (ha.site ▸ hs)

theorem forgives_of_keeps (ha : Alters i (net.site i) net net') : Forgives net net' :=
  forgives_of_alters ha (.refl _)

theorem forgives_of_effect {moves : Negotiation → Event → Prop} {opens keeps : Negotiation → Prop}
    {r : Except Fault (Except Refusal Negotiation)}
    (he : (focus j).Effect ids net moves opens keeps r net')
    (heases : (net.site j).Eases (net'.site j))
    (hm : ∀ v event, moves v event → ∀ cause, event ≠ .fail cause)
    (ho : ∀ w, opens w → w.state ≠ .error) : Forgives net net' := by
  apply forgives_of_confined he.confined
  cases he with
  | refused hk | kept _ hk =>
    exact Site.forgives_of_records heases.retries (congrArg Store.records hk.store)
  | moved v w event agreementId hc hv hid hmoved =>
    apply Site.forgives_of_write heases.retries hmoved.find?
    obtain ⟨now, next, message, ht, rfl⟩ := hmoved.follows
    rw [state_successor]
    exact (row_of_transition ht).state_ne_error (hm v event hv)
  | opened w k hc _ _ _ hopens hopened =>
    exact Site.forgives_of_write heases.retries hopened.find? (ho w hopens)

theorem takeCommands_forgives : Yields (m.takeCommands (environment ids i)) net
    fun _ net' => Forgives net net' := by
  apply (takeCommands_yields m).mono
  rintro _ net' ⟨-, ha⟩
  exact forgives_of_alters ha (Site.forgives_mapQueue _ m.role _)

theorem release_forgives (id : String) : Yields (m.release (environment ids i) id) net
    fun _ net' => Forgives net net' := by
  apply (release_yields m id).mono
  intro _ net' ha
  exact forgives_of_alters ha (Site.forgives_release ..)

theorem applyCommand_forgives (c : QueuedCommand) :
    Yields (m.applyCommand (environment ids i) c) net fun _ net' => Forgives net net' := by
  have hends := Manager.applyCommand_ends (s := net) (environment_lawful ids i) (m := m) c
  apply ((applyCommand_yields m c).andEnds hends).mono
  rintro _ net' ⟨ha, hwrites⟩
  apply forgives_of_confined ha.toConfined
  have hretries : (net.site i).Forgets (net'.site i) :=
    ha.site ▸ ((net.site i).obeys_obey m c net.now net.now).forgets
  rcases hwrites with hk | ⟨v, w, agreementId, hc, -, hm⟩
  · exact Site.forgives_of_records hretries (congrArg Store.records hk.store)
  · apply Site.forgives_of_write hretries hm.find?
    obtain ⟨now, next, message, ht, rfl⟩ := hm.follows
    rw [state_successor]
    refine (row_of_transition ht).state_ne_error fun cause h => ?_
    cases hcommand : c.command <;> simp [hcommand, Command.event] at h

theorem lease_forgives (state : State) (role : Role) (batch : Nat) (holder : String) :
    Yields ((environment ids i).lease state role batch holder) net
      fun ns net' => Forgives net net' ∧ ∀ v ∈ ns, v.role = some role := by
  obtain ⟨ns, store, hl⟩ : ∃ ns store, (net.site i).store.leaseNext state.code (some role) batch
    holder net.now = (ns, store) := ⟨_, _, rfl⟩
  have hleases := Store.leases_of_leaseNext hl
  refine ⟨ns, _, lease_apply hl, forgives_of_alters (alters_setSite net i _) ?_, hleases.role⟩
  apply Site.forgives_of_records
  · intro r key
    rw [Site.workload_store]
    exact .inl rfl
  · exact hleases.records

inductive Interlude (roster : Roster n) : Network n → Network n → Prop where
  | initiate (i : Fin n) (request : ContractRequest) (net : Network n) : Interlude roster net
      ((Service.initiate (roster.connector i) (environment roster.ids i) request).after net)
  | counterOffer (i : Fin n) (id : String) (offer : Offer) (net : Network n) : Interlude roster net
      ((Service.counterOffer (roster.connector i) (environment roster.ids i) id offer).after net)
  | cancel (i : Fin n) (id : String) (net : Network n) : Interlude roster net
      ((Service.cancel (roster.connector i) (environment roster.ids i) id).after net)
  | decline (i : Fin n) (id reason : String) (net : Network n) : Interlude roster net
      ((Service.decline (roster.connector i) (environment roster.ids i) id reason).after net)
  | register (i : Fin n) (net : Network n) :
      Interlude roster net ((register (roster.connector i).address i).after net)
  | unregister (i : Fin n) (net : Network n) :
      Interlude roster net ((unregister (roster.connector i).address).after net)
  | clock (now : Instant) (net : Network n) : Interlude roster net { net with now }

theorem acts_iff : Acts roster net net' ↔
    Interlude roster net net' ∨ ∃ i role, net' = (runOnce roster i role).after net := by
  constructor
  · rintro (_ | _ | _ | _ | ⟨i, role⟩ | _ | _ | _)
    case round => exact .inr ⟨i, role, rfl⟩
    all_goals
      left
      constructor
  · rintro (hx | ⟨i, role, rfl⟩)
    · cases hx <;> constructor
    · exact .round i role net

inductive Comes (roster : Roster n) (net net' : Network n) : Prop where
  | called {r : Except Fault (Except Refusal Negotiation)} (i : Fin n) :
      (focus i).Effect roster.ids net
        (fun v event => v.role = some .provider ∧ ∃ offer, event = .counterOffer offer)
        (fun w => ∃ address offer, w.Starts .consumer .requesting "" address offer)
        (fun _ => False) r net' →
      (net.site i).Eases (net'.site i) → Comes roster net net'
  | queued (i : Fin n) (role : Role) (c : Command) :
      Alters i ((net.site i).update role (·.mapQueue (·.enqueue c))) net net' →
      Comes roster net net'
  | kept : net'.issued = net.issued → (∀ k, net'.site k = net.site k) → Comes roster net net'

theorem comes_refl (roster : Roster n) (net : Network n) : Comes roster net net :=
  .kept rfl fun _ => rfl

theorem enqueue_comes (m : Manager) (c : Command) :
    Yields (m.enqueue (environment ids i) c) net fun _ net' => Comes roster net net' :=
  (enqueue_yields m c).mono fun _ _ ha => .queued i m.role c ha

section Wired

variable (hw : roster.Wired drawn)
include hw

theorem Interlude.comes (htidy : ∀ k, (net.site k).store.Tidy) (hx : Interlude roster net net') :
    Comes roster net net' := by
  have found (i : Fin n) (id : String) : Yields ((environment roster.ids i).find id) net
      fun _ t => t = net := ⟨_, _, rfl, rfl⟩
  have replied (i : Fin n) (call : Service.Call) : Yields
      (call.answer (roster.connector i) (environment roster.ids i)) net (Replies i net) :=
    answer_replies (roster.connector i) (htidy i) call
  cases hx with
  | initiate i request =>
    have hends := Service.initiate_ends (s := net) (environment_lawful roster.ids i)
      (roster.connector i) (hw.typed i) request
    apply Yields.after
    apply ((replied i (.initiate request)).andEnds hends).mono
    rintro r t ⟨hr, he⟩
    exact .called i (he.mono (fun _ _ hf => hf.elim) (fun _ h => h) fun _ h => h) hr.site.eases
  | counterOffer i id offer =>
    have hends := Service.counterOffer_ends (s := net) (environment_lawful roster.ids i)
      (roster.connector i) (hw.typed i) id offer
    apply Yields.after
    apply ((replied i (.counterOffer id offer)).andEnds hends).mono
    rintro r t ⟨hr, he⟩
    exact .called i (he.mono (fun _ _ h => h.2) (fun _ hf => hf.elim) fun _ h => h) hr.site.eases
  | cancel i id =>
    apply Yields.after
    apply call_yields
    apply (found i id).bind
    rintro v t rfl
    cases v with
    | none => exact yields_pure.mpr (comes_refl roster t)
    | some v =>
      dsimp only
      split
      · exact yields_pure.mpr (comes_refl roster t)
      · apply (enqueue_comes _ _).bind
        exact fun _ _ hu => yields_pure.mpr hu
  | decline i id reason =>
    apply Yields.after
    apply call_yields
    apply (found i id).bind
    rintro v t rfl
    cases v with
    | none => exact yields_pure.mpr (comes_refl roster t)
    | some v =>
      apply (enqueue_comes _ _).bind
      exact fun _ _ hu => yields_pure.mpr hu
  | register i => exact .kept rfl fun _ => rfl
  | unregister i => exact .kept rfl fun _ => rfl
  | clock now => exact .kept rfl fun _ => rfl

theorem receive_forgives (htidy : (net.site j).store.Tidy) (message : RemoteMessage)
    (token : ClaimToken) :
    Yields (Service.receive (roster.connector j) (environment roster.ids j) message token) net
      fun _ net' => Forgives net net' := by
  have hends := Service.receive_ends (environment_lawful roster.ids j) (roster.connector j)
    (hw.typed j) htidy message token
  apply ((receive_replies (roster.connector j) htidy message token).andEnds hends).mono
  rintro r net' ⟨hr, hreception⟩
  cases r with
  | none =>
    obtain rfl : net' = net := hr
    exact .refl net'
  | some r =>
    have hreplies : Replies j net r net' := hr
    obtain ⟨h, -⟩ | ⟨r', -, heffect⟩ := hreception
    · cases h
    · apply forgives_of_effect heffect hreplies.site.eases
      · rintro v event ⟨-, role, -, hmeans⟩ cause rfl
        cases hmeans
      · rintro w ⟨request, offer, -, -, -, -, hstarts⟩
        rw [state_eq hstarts.stateCode]
        decide

theorem send_forgives (htidy : ∀ k, (net.site k).store.Tidy) (message : RemoteMessage) :
    Yields (send roster i message) net fun _ net' => Forgives net net' := by
  cases hget : net.addresses.get? message.destination with
  | none =>
    apply (send_unreachable hget).mono
    rintro answer t ⟨-, rfl⟩
    exact .refl t
  | some j =>
    apply (send_yields hget (receive_forgives hw (htidy j) message _)).mono
    rintro _ net' ⟨_, -, h⟩
    exact h

theorem Interlude.forgives (htidy : ∀ k, (net.site k).store.Tidy)
    (hx : Interlude roster net net') : Forgives net net' := by
  cases hx.comes hw htidy with
  | called i he heases =>
    apply forgives_of_effect he heases
    · rintro v event ⟨-, offer, rfl⟩ cause h
      cases h
    · rintro w ⟨address, offer, hstarts⟩
      rw [state_eq hstarts.stateCode]
      decide
  | queued i role c ha => exact forgives_of_alters ha (Site.forgives_mapQueue _ role _)
  | kept hissued hsites =>
    refine ⟨Nat.le_of_eq hissued.symm, fun k => ?_⟩
    rw [hsites]
    exact .refl _

end Wired

end Network

end ContractNegotiation
