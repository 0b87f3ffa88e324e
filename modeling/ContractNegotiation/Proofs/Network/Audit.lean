import ContractNegotiation.Proofs.Network.Bargain
import ContractNegotiation.Proofs.Network.Decline
import ContractNegotiation.Proofs.Network.Refusals
import ContractNegotiation.Proofs.Network.Traffic
import ContractNegotiation.Proofs.Retry

namespace ContractNegotiation

open ContractNegotiation.Action Negotiation Relation

section Parcels

variable {n : Nat} {roster : Roster n} {parcels : List (Parcel n)} {p : Parcel n} {i k : Fin n}
  {role : Role} {id : String} {texts : List String} {v : Negotiation} {net net' : Network n}

def answers (parcels : List (Parcel n)) (k : Fin n) (role : Role) (id : String) :
    List DispatchResult :=
  (parcels.filter fun p => p.site = k ∧ p.role = role ∧ p.message.processId = id).map Parcel.answer

def Failing (parcels : List (Parcel n)) (k : Fin n) (role : Role) (id : String)
    (texts : List String) : Prop :=
  texts.map DispatchResult.transient <:+ answers parcels k role id

/-- A record has failed when as many messages as are permitted had not been accepted, one after the
other. -/
structure Exhausted (roster : Roster n) (parcels : List (Parcel n)) (k : Fin n) (v : Negotiation) :
    Prop where
  worn : ∃ role texts text, v.role = some role ∧
    ((roster.connector k).manager role).options.backoff.limit ≤ texts.length + 1 ∧
    Failing parcels k role v.id (texts ++ [text]) ∧
    v.errorDetail = "dispatch retries exhausted: " ++ text

structure Parcel.Proper (p : Parcel n) : Prop where
  composed : p.message.Composed
  tolerated : ∀ text, p.answer ≠ .fatal text

/-- What was sent accounts for the attempts that are counted, and for what has failed. -/
structure Audit (roster : Roster n) (parcels : List (Parcel n)) (net : Network n) : Prop where
  proper : ∀ p ∈ parcels, p.Proper
  counted : ∀ k role id, ∃ texts, Failing parcels k role id texts ∧
    texts.length = ((net.site k).workload role).retries.attempts id
  failed : ∀ k v, net.finder k v.id = some v → v.state = .error → Exhausted roster parcels k v

theorem answers_append (parcels : List (Parcel n)) (p : Parcel n) (k : Fin n) (role : Role)
    (id : String) : answers (parcels ++ [p]) k role id = answers parcels k role id ++
      if p.site = k ∧ p.role = role ∧ p.message.processId = id then [p.answer] else [] := by
  simp only [answers, List.filter_append, List.map_append]
  congr 1
  split <;> simp [*]

theorem failing_nil (parcels : List (Parcel n)) (k : Fin n) (role : Role) (id : String) :
    Failing parcels k role id [] := List.nil_suffix

theorem Failing.other (h : Failing parcels k role id texts)
    (hp : ¬ (p.site = k ∧ p.role = role ∧ p.message.processId = id)) :
    Failing (parcels ++ [p]) k role id texts := by
  unfold Failing
  rw [answers_append, if_neg hp, List.append_nil]
  exact h

theorem Failing.snoc {text : String} (h : Failing parcels p.site p.role p.message.processId texts)
    (hp : p.answer = .transient text) :
    Failing (parcels ++ [p]) p.site p.role p.message.processId (texts ++ [text]) := by
  unfold Failing
  obtain ⟨earlier, he⟩ := h
  refine ⟨earlier, ?_⟩
  rw [answers_append, if_pos ⟨rfl, rfl, rfl⟩, hp, List.map_append, ← List.append_assoc, he]
  rfl

theorem Exhausted.other (h : Exhausted roster parcels k v)
    (hp : p.site = k → v.id ≠ p.message.processId) : Exhausted roster (parcels ++ [p]) k v := by
  obtain ⟨role, texts, text, hr, hlimit, hf, hdetail⟩ := h.worn
  refine ⟨role, texts, text, hr, hlimit, hf.other ?_, hdetail⟩
  rintro ⟨hk, -, hid⟩
  exact hp hk hid.symm

theorem counted_of_forgets {net net' : Network n}
    (h : ∀ k role id, ∃ texts, Failing parcels k role id texts ∧
      texts.length = ((net.site k).workload role).retries.attempts id)
    (hf : ∀ k, (net.site k).Forgets (net'.site k)) (k : Fin n) (role : Role) (id : String) :
    ∃ texts, Failing parcels k role id texts ∧
      texts.length = ((net'.site k).workload role).retries.attempts id := by
  rw [RetryLog.attempts_eq]
  rcases hf k role id with he | hn
  · rw [he, ← RetryLog.attempts_eq]
    exact h k role id
  · rw [hn]
    exact ⟨[], failing_nil .., rfl⟩

theorem Audit.forgives (h : Audit roster parcels net) (hf : Network.Forgives net net') :
    Audit roster parcels net' where
  proper := h.proper
  counted := counted_of_forgets h.counted fun k => (hf.sites k).retries
  failed k v hv hs := h.failed k v ((hf.sites k).failed v hs hv) hs

theorem Audit.post (h : Audit roster parcels net) (hp : p.Proper) {f : Workload → Workload}
    (ha : Network.Alters p.site ((net.site p.site).update p.role f) net net')
    (hothers : ∀ w key, key ≠ p.message.processId →
      (f w).retries.attempts key = w.retries.attempts key)
    (hcounted : ∃ texts, Failing (parcels ++ [p]) p.site p.role p.message.processId texts ∧
      texts.length = (f ((net.site p.site).workload p.role)).retries.attempts p.message.processId)
    (hlive : ∀ v, net.finder p.site v.id = some v → v.state = .error →
      v.id ≠ p.message.processId) : Audit roster (parcels ++ [p]) net' where
  proper q hq := by
    rcases List.mem_append.mp hq with hq | hq
    · exact h.proper q hq
    · exact List.mem_singleton.mp hq ▸ hp
  counted k role id := by
    by_cases hkey : p.site = k ∧ p.role = role ∧ p.message.processId = id
    · obtain ⟨rfl, rfl, rfl⟩ := hkey
      rwa [ha.site, Site.workload_update, if_pos rfl]
    · obtain ⟨texts, hf, hlength⟩ := h.counted k role id
      refine ⟨texts, hf.other hkey, hlength.trans ?_⟩
      by_cases hk : k = p.site
      · subst hk
        rw [ha.site, Site.workload_update]
        split
        · rename_i hr
          subst hr
          exact (hothers _ _ fun hid => hkey ⟨rfl, rfl, hid.symm⟩).symm
        · rfl
      · rw [Network.site_of_confined ha.toConfined hk]
  failed k v hv hs := by
    have hsame : net'.finder = net.finder := by
      apply Network.finder_of_records ha.toConfined
      rw [ha.site, Site.store_update]
    rw [hsame] at hv
    apply (h.failed k v hv hs).other
    rintro rfl
    exact hlive v hv hs

theorem Audit.conclude {next : Negotiation} {now : Instant} {holder : String}
    (h : Audit roster parcels net)
    (ha : Network.Alters i ((net.site i).conclude role now holder next) net net')
    (hnext : next.state = .error → Exhausted roster parcels i next) :
    Audit roster parcels net' := by
  unfold Site.conclude at ha
  split at ha
  · rename_i w store hsave
    have hsaved := Store.saved_of_save hsave
    refine ⟨h.proper, counted_of_forgets h.counted fun k => ?_, fun k v hv hs => ?_⟩
    · by_cases hk : k = i
      · rw [hk, ha.site]
        exact (Site.eases_record hsaved.leases role w.id).retries
      · rw [Network.site_of_confined ha.toConfined hk]
        exact (Site.Forgives.refl _).retries
    · by_cases hk : k = i
      · subst hk
        rw [Network.finder, ha.site, Site.store_record, hsaved.find?] at hv
        split at hv
        · obtain rfl := Option.some.inj hv
          cases hsaved with
          | first => exact ⟨(hnext hs).worn⟩
          | next => exact ⟨(hnext hs).worn⟩
        · exact h.failed k v hv hs
      · rw [Network.finder, Network.site_of_confined ha.toConfined hk] at hv
        exact h.failed k v hv hs
  · exact h.forgives (Network.forgives_of_keeps ha)

end Parcels

namespace Traffic

variable {n : Nat} {roster : Roster n} {ids : Nat → String} {i k : Fin n} {role : Role}
  {t t' : Traffic n} {drawn : Nat} {v next : Negotiation} {message : RemoteMessage}

structure Speaker (i : Fin n) (role : Role) (v : Negotiation) (net : Network n) : Prop where
  tidy : ∀ k, (net.site k).store.Tidy
  labelled : ∀ k, net.Labelled k
  stored : net.finder i v.id = some v
  role : v.role = some role
  wellFormed : v.WellFormed

theorem Speaker.keeps {net net' : Network n} (h : Speaker i role v net)
    (hsites : ∀ k, net'.site k = net.site k) : Speaker i role v net' where
  tidy k := hsites k ▸ h.tidy k
  labelled k := by
    unfold Network.Labelled
    rw [hsites]
    exact h.labelled k
  stored := by
    rw [Network.finder, hsites]
    exact h.stored
  role := h.role
  wellFormed := h.wellFormed

theorem Speaker.id_ne_empty {net : Network n} (h : Speaker i role v net) : v.id ≠ "" :=
  (h.labelled i v (Store.mem_of_find? h.stored)).1

def Audited (roster : Roster n) (t : Traffic n) : Prop := Audit roster t.parcels t.network

structure Answered (roster : Roster n) (p : Parcel n) (t : Traffic n) : Prop where
  proper : p.Proper
  earlier : ∃ parcels, t.parcels = parcels ++ [p] ∧ Audit roster parcels t.network
  live : ∀ v, t.network.finder p.site v.id = some v → v.state = .error → v.id ≠ p.message.processId

theorem Audited.forgives {α : Type} {x : Action (Traffic n) α} {y : Action (Network n) α}
    (h : t.Audited roster) (hx : ∀ P : List (Parcel n) → Prop, Alike (Carries P) Eq x y)
    (hy : Yields y t.network fun _ net => Network.Forgives t.network net) :
    Yields x t fun _ t' => t'.parcels = t.parcels ∧ t'.Audited roster := by
  apply (lift_yields hx hy).mono
  rintro _ t' ⟨hparcels, hf⟩
  refine ⟨hparcels, ?_⟩
  unfold Audited
  rw [hparcels]
  exact Audit.forgives h hf

section Turns

variable {m : Manager} {texts : List String} {text peer : String}

theorem report_audits (h : t.Audited roster) (notice : Notice) :
    Yields ((environment ids i).report notice) t
      fun _ t' => t'.parcels = t.parcels ∧ t'.Audited roster := by
  apply h.forgives fun P => within_alike P ((Network.environment ids i).report notice) fun _ => rfl
  apply (Network.report_yields (i := i) notice).mono
  exact fun _ _ ha => Network.forgives_of_keeps ha

theorem release_audits (h : t.Audited roster) (id : String) :
    Yields (m.release (environment ids i) id) t fun _ t' => t'.Audited roster :=
  (h.forgives (fun P => Manager.release_alike (environment_alike ids i m P) trivial)
    (Network.release_forgives id)).mono fun _ _ h => h.2

theorem conclude_audits (h : t.Audited roster) (hv : v.role = some m.role) (hc : v.Continues next)
    (hstate : next.state ≠ .error) (peer : String) :
    Yields (m.conclude (environment ids i) v (next.correlate peer)) t
      fun _ t' => t'.Audited roster := by
  have hx (P : List (Parcel n) → Prop) :=
    Manager.conclude_alike (environment_alike ids i m P) trivial hv hc peer
  apply (lift_yields hx (Network.conclude_yields m v (next.correlate peer))).mono
  rintro _ t' ⟨hparcels, ha⟩
  unfold Audited
  rw [hparcels]
  apply Audit.conclude h ha
  rw [correlate_eq]
  exact fun h => absurd h hstate

theorem concludeFailed_audits (h : t.Audited roster) (hv : v.role = some m.role)
    (hterm : v.state.isTerminal = false)
    (hlimit : ((roster.connector i).manager m.role).options.backoff.limit ≤ texts.length + 1)
    (hf : Failing t.parcels i m.role v.id (texts ++ [text])) :
    Yields (m.concludeFailed (environment ids i) v ("dispatch retries exhausted: " ++ text)) t
      fun _ t' => t'.Audited roster := by
  have hx (P : List (Parcel n) → Prop) := Manager.concludeFailed_alike (environment_alike ids i m P)
    trivial hv ("dispatch retries exhausted: " ++ text)
  apply (lift_yields hx (Network.concludeFailed_yields m _ hterm)).mono
  rintro _ t' ⟨hparcels, ha⟩
  unfold Audited
  rw [hparcels]
  exact Audit.conclude h ha fun _ => ⟨m.role, texts, text, hv, hlimit, hf, rfl⟩

theorem clear_audits (h : Answered roster ⟨i, m.role, message, .ok peer⟩ t)
    (hid : message.processId = v.id) :
    Yields (m.modify (environment ids i) (·.clearRetries v.id)) t
      fun _ t' => t'.Audited roster := by
  obtain ⟨parcels, hparcels, haudit⟩ := h.earlier
  have hx (P : List (Parcel n) → Prop) :=
    Manager.modify_alike (environment_alike ids i m P) (·.clearRetries v.id)
  apply (lift_yields hx (Network.clear_yields m v.id)).mono
  rintro _ t' ⟨hkept, ha⟩
  rw [← hid] at ha
  unfold Audited
  rw [hkept, hparcels]
  apply haudit.post h.proper ha
  · exact fun w key hkey => (RetryLog.attempts_clear ..).trans (if_neg hkey)
  · exact ⟨[], failing_nil .., ((RetryLog.attempts_clear ..).trans (if_pos rfl)).symm⟩
  · exact h.live

theorem recordFailure_audits (h : Answered roster ⟨i, m.role, message, .transient text⟩ t)
    (hid : message.processId = v.id) :
    Yields (m.recordFailure (environment ids i) v.id) t fun r t' => t'.Audited roster ∧
      (r.1 = true → ∃ texts, m.options.backoff.limit ≤ texts.length + 1 ∧
        Failing t'.parcels i m.role v.id (texts ++ [text])) := by
  obtain ⟨parcels, hparcels, haudit⟩ := h.earlier
  obtain ⟨texts, hf, hlength⟩ := haudit.counted i m.role message.processId
  have hworn : Failing t.parcels i m.role message.processId (texts ++ [text]) := by
    rw [hparcels]
    exact Failing.snoc (p := ⟨i, m.role, message, .transient text⟩) hf rfl
  have hx (P : List (Parcel n) → Prop) :=
    Manager.recordFailure_alike (environment_alike ids i m P) v.id
  apply (lift_yields hx (Network.recordFailure_yields m v.id)).mono
  rintro r t' ⟨hkept, hcount, ha⟩
  rw [← hid] at hcount ha ⊢
  unfold Audited
  rw [hkept, hcount]
  constructor
  · rw [hparcels] at hworn ⊢
    apply haudit.post h.proper ha
    · exact fun w key hkey => RetryLog.attempts_recordFailure_of_ne hkey
    · rw [RetryLog.attempts_recordFailure]
      split
      · exact ⟨[], failing_nil .., rfl⟩
      · exact ⟨_, hworn, by rw [List.length_append, hlength]; rfl⟩
    · exact h.live
  · intro hexhausted
    exact ⟨texts, hlength ▸ RetryLog.exhausted_iff.mp hexhausted, hworn⟩

end Turns

section Speaking

variable (hw : roster.Wired drawn) (hidentity : (roster.connector i).participantId ≠ "")
  (h : t.Audited roster) (hs : Speaker i role v t.network)
include hw hidentity h hs

theorem send_answered (hm : message.Composed) (hid : message.processId = v.id)
    (hterm : v.state.isTerminal = false) :
    Yields (send roster i role message) t fun answer t' =>
      Answered roster ⟨i, role, message, answer⟩ t' := by
  have hsent := (Network.send_passing hw.nonempty hs.labelled hidentity hm).and
    (Network.send_forgives hw hs.tidy message)
  apply (send_yields hsent).mono
  rintro answer t' ⟨hparcels, hpassing, hf⟩
  refine ⟨⟨hm, hpassing⟩, ⟨t.parcels, hparcels, Audit.forgives h hf⟩, fun x hx hstate hxid => ?_⟩
  have hstored := (hf.sites i).failed x hstate hx
  rw [hxid, hid] at hstored
  obtain rfl := Option.some.inj (hstored.symm.trans hs.stored)
  rw [hstate] at hterm
  cases hterm

theorem deliver_audits (hm : message.Composed) (hid : message.processId = v.id)
    (hterm : v.state.isTerminal = false) (hc : v.Continues next) (hstate : next.state ≠ .error) :
    Yields (((roster.connector i).manager role).deliver (environment roster.ids i)
      (send roster i role) v next message) t fun _ t' => t'.Audited roster := by
  have hr : ((roster.connector i).manager role).role = role := (hw.typed i).manager role
  have hv : v.role = some ((roster.connector i).manager role).role :=
    hs.role.trans (congrArg some hr.symm)
  apply (send_answered hw hidentity h hs hm hid hterm).bind
  intro answer u hu
  cases answer with
  | ok peer =>
    apply (clear_audits (hr.symm ▸ hu) hid).bind
    intro _ u' hu'
    apply (conclude_audits hu' hv hc hstate peer).bind
    exact fun _ _ h => yields_pure.mpr h
  | transient text =>
    apply (recordFailure_audits (hr.symm ▸ hu) hid).bind
    rintro ⟨exhausted, attempts⟩ u' ⟨hu', hexhausted⟩
    dsimp only
    split
    · rename_i hlast
      obtain ⟨texts, hlimit, hf⟩ := hexhausted hlast
      apply (report_audits hu' _).bind
      rintro _ u'' ⟨hparcels, hu''⟩
      have hlimit' : ((roster.connector i).manager
          ((roster.connector i).manager role).role).options.backoff.limit ≤ texts.length + 1 := by
        rwa [hr]
      apply (concludeFailed_audits hu'' hv hterm hlimit' (hparcels ▸ hf)).bind
      exact fun _ _ h => yields_pure.mpr h
    · apply (report_audits hu' _).bind
      rintro _ u'' ⟨-, hu''⟩
      apply (release_audits hu'' v.id).bind
      exact fun _ _ h => yields_pure.mpr h
  | fatal text => exact absurd rfl (hu.proper.tolerated text)

theorem advance_audits (haddress : (roster.connector i).address ≠ "") :
    Yields (((roster.connector i).manager role).advance (environment roster.ids i)
      (send roster i role) v) t fun _ t' => t'.Audited roster := by
  have hr : ((roster.connector i).manager role).role = role := (hw.typed i).manager role
  have hv : v.role = some ((roster.connector i).manager role).role :=
    hs.role.trans (congrArg some hr.symm)
  have passes {u : Traffic n} (hu : u.Audited roster) (notice : Notice) :
      Yields ((environment roster.ids i).report notice >>= fun _ =>
        ((roster.connector i).manager role).release (environment roster.ids i) v.id >>= fun _ =>
          pure true) u fun _ t' => t'.Audited roster := by
    apply (report_audits hu notice).bind
    rintro _ u' ⟨-, hu'⟩
    apply (release_audits hu' v.id).bind
    exact fun _ _ h => yields_pure.mpr h
  have hx (P : List (Parcel n) → Prop) := (Manager.transition_alike
    (environment_alike roster.ids i ((roster.connector i).manager role) P) v
      ((roster.connector i).manager role).turn).mono fun _ _ h => h.1
  apply (lift_yields hx (Network.transition_yields v _)).bind
  rintro outcome u ⟨hparcels, houtcome, ha⟩
  have hu : u.Audited roster := by
    unfold Audited
    rw [hparcels]
    exact Audit.forgives h (Network.forgives_of_keeps ha)
  have hsu : Speaker i role v u.network := hs.keeps fun k => by
    by_cases hk : k = i
    · rw [hk, ha.site]
    · exact Network.site_of_confined ha.toConfined hk
  cases outcome with
  | rejected => exact passes hu _
  | unchanged => exact passes hu _
  | applied next message =>
    have hrow := row_of_transition houtcome.symm
    have hstate : next.state ≠ .error := hrow.state_ne_error fun cause h => by cases h
    cases message with
    | some message =>
      have hcallback : ((roster.connector i).manager role).options.callbackAddress ≠ "" := by
        rwa [hw.callback]
      have hm : message.Composed := hrow.composed hs.wellFormed hs.id_ne_empty hcallback
      exact deliver_audits hw hidentity hu hsu hm hrow.routing.1 hrow.isTerminal hrow.continues
        hstate
    | none =>
      dsimp only
      rw [← correlate_empty next]
      apply (conclude_audits hu hv hrow.continues hstate "").bind
      exact fun _ _ h => yields_pure.mpr h

theorem processLeased_audits (haddress : (roster.connector i).address ≠ "") :
    Yields (((roster.connector i).manager role).processLeased (environment roster.ids i)
      (send roster i role) v) t fun _ t' => t'.Audited roster := by
  apply (advance_audits hw hidentity h hs haddress).attempt.bind
  rintro _ u ⟨settled, rfl, hu⟩
  cases settled with
  | true => exact yields_pure.mpr hu
  | false => exact release_audits hu v.id

end Speaking

structure Kept (roster : Roster n) (drawn : Nat) (i : Fin n) (role : Role)
    (leased : List Negotiation) (t : Traffic n) : Prop where
  underway : Network.Underway roster drawn i role leased t.network
  roles : ∀ v ∈ leased, v.role = some role
  audited : t.network.issued ≤ drawn → t.Audited roster

section Rounds

variable {leased others : List Negotiation} (h : Kept roster drawn i role leased t)
include h

theorem Kept.speaker (hv : v ∈ leased) (hd : t.network.issued ≤ drawn) :
    Speaker i role v t.network := by
  have hleased := h.underway.leased hd
  have hsorted := hleased.accord.toSorted
  have hstored := hleased.stored v hv
  refine ⟨h.underway.tidy, fun k x hx => ?_, hstored, h.roles v hv, ?_⟩
  · have hfound : t.network.finder k x.id = some x := (h.underway.tidy k).find?_of_mem hx
    obtain ⟨role, hrole, -⟩ := (hsorted.sound k x.id x hfound).branch
    exact ⟨hsorted.nonempty k x.id x hfound, by simp [hrole]⟩
  · exact (hsorted.sound i v.id v hstored).toWellFormed

theorem Kept.drop (hsub : others.Subperm leased) : Kept roster drawn i role others t :=
  ⟨h.underway.drop hsub, fun v hv => h.roles v (hsub.subset hv), h.audited⟩

theorem Kept.forgives {α : Type} {x : Action (Traffic n) α} {y : Action (Network n) α}
    (hx : ∀ P : List (Parcel n) → Prop, Alike (Carries P) Eq x y)
    (hy : Yields y t.network fun _ net => Network.Forgives t.network net)
    (hu : Ends y t.network fun _ net => Network.Underway roster drawn i role others net)
    (hsub : others ⊆ leased) : Ends x t fun _ t' => Kept roster drawn i role others t' := by
  apply (lift_yields hx (hy.andEnds hu)).ends
  rintro _ t' ⟨hparcels, hf, hunderway⟩
  refine ⟨hunderway, fun v hv => h.roles v (hsub hv), fun hd => ?_⟩
  unfold Audited
  rw [hparcels]
  exact Audit.forgives (h.audited (Nat.le_trans hf.issued hd)) hf

end Rounds

section Upheld

variable (hw : roster.Wired drawn) (hidentity : (roster.connector i).participantId ≠ "")
  (haddress : (roster.connector i).address ≠ "")
include hw hidentity haddress

theorem Kept.turn {leased : List Negotiation} (h : Kept roster drawn i role (v :: leased) t) :
    Yields (((roster.connector i).manager role).processLeased (environment roster.ids i)
      (send roster i role) v) t fun _ t' => Kept roster drawn i role leased t' := by
  have hr : ((roster.connector i).manager role).role = role := (hw.typed i).manager role
  have hv := h.roles v (List.mem_cons_self ..)
  have hplain := (Network.processLeased_settles (m := (roster.connector i).manager role) hw
    h.underway.tidy).andEnds ((Network.underway_preserved hw i role).turn v leased _ h.underway)
  have halike := Manager.processLeased_alike
    (environment_alike roster.ids i ((roster.connector i).manager role) fun _ => True) trivial
      (hv.trans (congrArg some hr.symm)) (send_alike roster i role)
  have hlifted := halike.yields (s := t) ⟨rfl, trivial⟩ hplain
  have hroles (w : Negotiation) (hw : w ∈ leased) : w.role = some role :=
    h.roles w (List.mem_cons_of_mem v hw)
  by_cases hd : t.network.issued ≤ drawn
  · have hspeaker := h.speaker (List.mem_cons_self ..) hd
    have haudits := processLeased_audits hw hidentity (h.audited hd) hspeaker haddress
    apply (hlifted.and haudits).mono
    rintro _ t' ⟨⟨_, _, -, ⟨rfl, -⟩, -, hunderway⟩, haudited⟩
    exact ⟨hunderway, hroles, fun _ => haudited⟩
  · apply hlifted.mono
    rintro _ t' ⟨_, _, -, ⟨rfl, -⟩, hsettles, hunderway⟩
    exact ⟨hunderway, hroles, fun hd' => absurd (Nat.le_trans hsettles.issued hd') hd⟩

theorem kept_upheld (role : Role) : Manager.Upholds ((roster.connector i).manager role)
    (environment roster.ids i) (send roster i role) (Kept roster drawn i role) := by
  have hr : ((roster.connector i).manager role).role = role := (hw.typed i).manager role
  have halike (P : List (Parcel n) → Prop) :=
    environment_alike roster.ids i ((roster.connector i).manager role) P
  have hplain := (Network.underway_preserved hw i role).upholds
    (Network.environment_lawful roster.ids i)
  constructor
  case drop => exact fun _ _ _ h hsub => h.drop hsub
  case now =>
    intro ns t h
    exact h.forgives (fun P => (halike P).now) ⟨_, _, rfl, .refl _⟩
      (hplain.now ns _ h.underway) (List.Subset.refl _)
  case workload =>
    intro ns t h
    exact h.forgives (fun P => (halike P).workload) ⟨_, _, rfl, .refl _⟩
      (hplain.workload ns _ h.underway) (List.Subset.refl _)
  case take =>
    intro t h
    exact h.forgives (fun P => Manager.takeCommands_alike (halike P)) Network.takeCommands_forgives
      (hplain.take _ h.underway) (List.Subset.refl _)
  case command =>
    intro c t h
    exact h.forgives (fun P => Manager.applyCommand_alike (halike P) c)
      (Network.applyCommand_forgives c) (hplain.command c _ h.underway) (List.Subset.refl _)
  case lease =>
    intro state t h
    have hlease := (Network.lease_forgives state _ _ _).andEnds (hplain.lease state _ h.underway)
    apply (lift_yields (fun P => ((halike P).lease state).mono fun _ _ h => h.1) hlease).ends
    rintro ns t' ⟨hparcels, ⟨hf, hroles⟩, hunderway⟩
    refine ⟨hunderway, fun v hv => (hroles v hv).trans (congrArg some hr), fun hd => ?_⟩
    unfold Audited
    rw [hparcels]
    exact Audit.forgives (h.audited (Nat.le_trans hf.issued hd)) hf
  case release =>
    intro v ns t h
    exact h.forgives (fun P => Manager.release_alike (halike P) trivial)
      (Network.release_forgives v.id) (hplain.release v ns _ h.underway)
      (List.subset_cons_self v ns)
  case turn =>
    intro v ns t h
    exact (h.turn hw hidentity haddress).ends fun _ _ h => h

end Upheld

structure Balanced (roster : Roster n) (drawn : Nat) (t : Traffic n) : Prop where
  settled : Network.Settled roster drawn t.network
  audited : t.network.issued ≤ drawn → t.Audited roster

section Runs

variable (hw : roster.Wired drawn)
  (hidentity : ∀ k, (roster.connector k).participantId ≠ "" ∧ (roster.connector k).address ≠ "")
include hw hidentity

theorem Balanced.acts (h : Balanced roster drawn t) (hx : Acts roster t t') :
    Balanced roster drawn t' := by
  refine ⟨h.settled.acts hw hx.network, ?_⟩
  cases hx with
  | interlude t hx =>
    have hf := hx.forgives hw h.settled.tidy
    intro hd
    exact Audit.forgives (h.audited (Nat.le_trans hf.issued hd)) hf
  | round i role t =>
    have hupheld := kept_upheld hw (hidentity i).1 (hidentity i).2 role
    have hstart : Kept roster drawn i role [] t := ⟨h.settled.underway, by simp, h.audited⟩
    exact ((hupheld.runOnce hstart).mono fun _ _ hk => hk.audited).after

theorem Balanced.run (h : Balanced roster drawn t) (hx : ReflTransGen (Acts roster) t t') :
    Balanced roster drawn t' := by
  induction hx with
  | refl => exact h
  | tail _ hx ih => exact ih.acts hw hidentity hx

end Runs

variable {settings : Vector Settings n} {draws : Nat → Identifier} {net net' : Network n}

theorem balanced_of_built (hbuilt : Network.Built settings net)
    (hidle : ∀ k role, (net.site k).workload role = {}) : Balanced roster drawn ⟨net, []⟩ := by
  refine ⟨hbuilt.settled, fun _ => ⟨by simp, fun k role id => ?_, fun k v hv => ?_⟩⟩
  · exact ⟨[], failing_nil .., by rw [hidle]; rfl⟩
  · have hmem := Store.mem_of_find? hv
    rw [hbuilt.records k] at hmem
    cases hmem

/-- Whatever is sent in a network of connectors with checked settings is as it should be and is not
refused for good, and a record fails only when its attempts have been used up. -/
theorem never_fatal (hchecked : ∀ k, (settings.get k).Checked)
    (haddress : Function.Injective fun k => (settings.get k).connectorOrDefault.address)
    (hbuilt : Network.Built settings net) (hidle : ∀ k role, (net.site k).workload role = {})
    (hrun : ReflTransGen (Network.Acts (.ofSettings settings draws)) net net')
    (hdistinct : ∀ k < net'.issued, ∀ l < net'.issued, (draws k).text = (draws l).text → k = l) :
    (∃ parcels, ReflTransGen (Acts (.ofSettings settings draws)) ⟨net, []⟩ ⟨net', parcels⟩) ∧
      ∀ parcels, ReflTransGen (Acts (.ofSettings settings draws)) ⟨net, []⟩ ⟨net', parcels⟩ →
        (∀ p ∈ parcels, p.Proper) ∧ ∀ k, ∀ v ∈ (net'.site k).store.records, v.state = .error →
          Exhausted (.ofSettings settings draws) parcels k v := by
  constructor
  · obtain ⟨⟨_, parcels⟩, rfl, hrecorded⟩ := exists_run (t := ⟨net, []⟩) hrun
    exact ⟨parcels, hrecorded⟩
  · intro parcels hrecorded
    have hw := Network.wired_ofSettings haddress hdistinct
    have hidentity (k : Fin n) :
        ((Roster.ofSettings settings draws).connector k).participantId ≠ "" ∧
          ((Roster.ofSettings settings draws).connector k).address ≠ "" := by
      rw [Network.connector_ofSettings]
      exact (hchecked k).identity
    have hbalanced := (balanced_of_built hbuilt hidle).run hw hidentity hrecorded
    have haudit := hbalanced.audited (Nat.le_refl _)
    refine ⟨haudit.proper, fun k v hv hs => ?_⟩
    exact haudit.failed k v ((hbalanced.settled.tidy k).find?_of_mem hv) hs

def hastySettings : Vector Settings 2 :=
  #v[Settings.withDefaults { connector := some { participantId := "c", address := "http://c" }
                             manager := some { maxRetries := 1 } },
    Settings.withDefaults { connector := some { participantId := "p", address := "http://p" } }]

def hastyParties : Roster 2 := .ofSettings hastySettings Network.partyDraws

def asked (i : Fin 2) : Traffic 2 :=
  ⟨(Service.initiate (hastyParties.connector i) (Network.environment hastyParties.ids i)
    Network.hopeless).after Network.strangers, []⟩

def lost (i : Fin 2) : Traffic 2 := (runOnce hastyParties i .consumer).after (asked i)

theorem hasty_checked (k : Fin 2) : (hastySettings.get k).Checked := by
  match k with
  | 0 =>
    exact ⟨⟨{ connector := some { participantId := "c", address := "http://c" }
              manager := some { maxRetries := 1 } }, rfl⟩, by decide +kernel⟩
  | 1 =>
    exact ⟨⟨{ connector := some { participantId := "p", address := "http://p" } }, rfl⟩,
      by decide +kernel⟩

theorem hasty_built : Network.Built hastySettings Network.strangers where
  store k := by
    match k with
    | 0 | 1 => rfl
  addresses := rfl
  issued := rfl

theorem never_fatal_of_lost : ∃ v ∈ ((lost 0).network.site 0).store.records, v.state = .error ∧
    Exhausted hastyParties (lost 0).parcels 0 v := by
  have hacts : ReflTransGen (Network.Acts hastyParties) Network.strangers (asked 0).network :=
    .single (.initiate 0 Network.hopeless _)
  have hlost : (lost 0).network =
      (Network.runOnce hastyParties 0 .consumer).after (asked 0).network := network_runOnce ..
  have hrecorded : ReflTransGen (Acts hastyParties) ⟨Network.strangers, []⟩ (lost 0) :=
    .tail (.single (.interlude _ (.initiate 0 Network.hopeless _))) (.round 0 .consumer (asked 0))
  obtain ⟨v, hv, hstate⟩ : ∃ v ∈ ((lost 0).network.site 0).store.records, v.state = .error := by
    decide +kernel
  have haddress : Function.Injective fun k =>
      (hastySettings.get k).connectorOrDefault.address := by decide +kernel
  obtain ⟨-, hproper⟩ := never_fatal hasty_checked haddress hasty_built Network.strangers_idle
    (hlost ▸ hacts.tail (.round 0 .consumer (asked 0).network)) (by decide +kernel)
  exact ⟨v, hv, hstate, (hproper (lost 0).parcels hrecorded).2 0 v hv hstate⟩

end Traffic

end ContractNegotiation
