import ContractNegotiation.Proofs.Timed.Loop
import ContractNegotiation.Proofs.Timed.Upkeep

namespace ContractNegotiation

open ContractNegotiation.Action Negotiation

namespace Negotiation

variable {n next v w : Negotiation} {now : Instant} {agreementId participantId address : String}
  {message : Option RemoteMessage} {role : Role}

theorem Row.pace (h : Row n now agreementId (.process participantId address) next message)
    (hr : n.role = some role) :
    if n.state.speaks then next.state ∉ State.processable role else next.state.speaks = true := by
  cases h with
  | request _ _ hrole hs | accept _ _ hrole hs | confirm _ _ hrole hs | check _ _ hrole hs
  | verify _ _ hrole hs | draft _ _ hrole hs | offer _ _ hrole hs | agree _ _ _ hrole hs
  | prepare _ _ hrole hs | finalize _ _ hrole hs =>
    rw [hr] at hrole
    cases hrole
    rw [hs]
    simp [State.speaks, State.processable, state, enter, State.ofCode_code]
  | terminate _ _ hs =>
    rw [hs]
    cases role <;> simp [State.speaks, State.processable, state, enter, State.ofCode_code]

end Negotiation

def State.hops (s : State) : Nat := if s.speaks then 1 else 2

namespace Manager

variable {m : Manager} {v w : Negotiation} {e : Ending}

theorem Suits.pace (h : m.Suits v e) (hr : v.role = some m.role) (hw : e.version = some w) :
    if v.state.speaks then w.state ∉ State.processable m.role else w.state.speaks = true := by
  obtain ⟨event, agreementId, peer, ⟨now, next, message, ht, rfl⟩, rfl | ⟨hspeaks, herror⟩⟩ :=
    h.version w hw
  · rw [state_successor]
    exact (row_of_transition ht).pace hr
  · rw [hspeaks, if_pos rfl, herror]
    cases m.role <;> decide

end Manager

namespace Page

variable {p q : Page} {m : Manager} {v : Negotiation} {vs ws : List Negotiation} {e : Ending}
  {rest : List State} {loop : List Negotiation}

def messages (p : Page) (id : String) : Nat := p.sent.countP (·.processId = id)

/-- A record is within its bounds if the loop has stored these versions. One that may still have a
turn has sent nothing, and has as many versions left as it may still need. -/
structure Within (p : Page) (loop : List Negotiation) (rest : List State) (vs : List Negotiation)
    (id : String) : Prop where
  messages : p.messages id ≤ 1
  versions : loop.countP (·.id = id) ≤ 2
  ahead : ∀ v, p.site.store.find? id = some v → v.state ∈ rest ∨ v ∈ vs →
    p.messages id = 0 ∧ loop.countP (·.id = id) + v.state.hops ≤ 2

theorem messages_of_turns (h : p.Turns m v e q) (hs : m.Suits v e) (id : String) :
    q.messages id = p.messages id + if id = v.id ∧ v.state.speaks = true then 1 else 0 := by
  rw [messages, h.sent, List.countP_append, ← hs.speaks]
  cases hm : e.message with
  | none => simp [messages]
  | some message =>
    have hid := hs.processId message hm
    by_cases hk : id = v.id
    · simp [messages, hid, hk]
    · have hne : ¬ v.id = id := fun he => hk he.symm
      simp [messages, hid, hk, hne]

theorem countP_news_le (hs : m.Suits v e) (id : String) :
    (loop ++ news v e).countP (·.id = id) ≤
      loop.countP (·.id = id) + if id = v.id then 1 else 0 := by
  rw [List.countP_append, news]
  split
  · simp
  · cases hw : e.version with
    | none => simp
    | some w =>
      have hid := hs.id hw
      by_cases hk : id = v.id
      · simp [hid, hk]
      · have hne : ¬ v.id = id := fun he => hk he.symm
        simp [hid, hk, hne]

theorem Turns.within (h : p.Turns m v e q) (hs : m.Suits v e)
    (hheld : p.site.store.Held m (v :: vs))
    (hrest : ∀ state ∈ rest, state ∈ State.processable m.role) (hpassed : v.state ∉ rest)
    (hp : ∀ id, p.Within loop rest (v :: vs) id) (id : String) :
    q.Within (loop ++ news v e) rest vs id := by
  have hmessages := messages_of_turns h hs id
  have hversions : (loop ++ news v e).countP (·.id = id) ≤ _ := countP_news_le hs id
  have hfind := h.settles.find? id
  by_cases hid : id = v.id
  · subst hid
    rw [if_pos rfl] at hfind hversions
    have hahead := (hp v.id).ahead v hheld.lends.stored (.inr (List.mem_cons_self ..))
    have hhops : 1 ≤ v.state.hops := by
      unfold State.hops
      split <;> omega
    refine ⟨?_, by omega, fun w hw hturn => ?_⟩
    · rw [hmessages, hahead.1]
      split <;> omega
    · have hpolled : w.state ∈ rest := by
        refine hturn.resolve_right fun hmem => ?_
        have hnodup := hheld.lending.nodup
        rw [List.map_cons, List.nodup_cons] at hnodup
        exact hnodup.1 (Store.id_of_find? hw ▸ List.mem_map_of_mem hmem)
      rw [hfind] at hw
      -- the version stays where it is, and its state is not polled again, or it is replaced
      have hnew : v.stateCount ≠ 0 ∧ e.version = some w := by
        unfold replacedBy at hw
        split at hw
        · cases hw
          exact absurd hpolled hpassed
        · rename_i next hnext
          split at hw
          · cases hw
            exact absurd hpolled hpassed
          · rename_i hcount
            cases hw
            exact ⟨hcount, hnext⟩
      have hpace := hs.pace hheld.lends.role hnew.2
      unfold State.hops at hahead ⊢
      split at hpace
      · exact absurd (hrest _ hpolled) hpace
      · rename_i hsilent
        rw [if_neg hsilent] at hahead
        rw [if_pos hpace, hmessages, if_neg fun hn => hsilent hn.2]
        omega
  · rw [if_neg hid] at hfind hversions
    have hsame : q.messages id = p.messages id := by simp [hmessages, hid]
    have hbefore := hp id
    refine ⟨?_, ?_, fun w hw hturn => ?_⟩
    · rw [hsame]
      exact hbefore.messages
    · exact Nat.le_trans hversions hbefore.versions
    · rw [hfind] at hw
      have hahead := hbefore.ahead w hw (hturn.imp_right (List.mem_cons_of_mem v))
      exact ⟨hsame.trans hahead.1, by omega⟩

structure Paced (m : Manager) (base : List Negotiation) (rest : List State)
    (vs : List Negotiation) (p : Page) : Prop where
  nodup : rest.Nodup
  states : ∀ state ∈ rest, state ∈ State.processable m.role
  passed : ∀ v ∈ vs, v.state ∉ rest
  within : ∃ loop, p.written = base ++ loop ∧ ∀ id, p.Within loop rest vs id

theorem Within.mono {id : String} {rest' : List State} (h : p.Within loop rest vs id)
    (hsent : q.sent = p.sent) (hfind : q.site.store.find? id = p.site.store.find? id)
    (hturn : ∀ v, v.state ∈ rest' ∨ v ∈ ws → v.state ∈ rest ∨ v ∈ vs) :
    q.Within loop rest' ws id := by
  have hmessages : q.messages id = p.messages id := by
    rw [Page.messages, Page.messages, hsent]
  refine ⟨hmessages ▸ h.messages, h.versions, fun v hv hv' => ?_⟩
  rw [hfind] at hv
  rw [hmessages]
  exact h.ahead v hv (hturn v hv')

theorem carries_paced (m : Manager) (base : List Negotiation) : Carries m (Paced m base) where
  perm rest vs ws p h hp := by
    obtain ⟨loop, hwritten, hwithin⟩ := h.within
    refine ⟨h.nodup, h.states, fun v hv => h.passed v (hp.mem_iff.mp hv), loop, hwritten, ?_⟩
    exact fun id => (hwithin id).mono rfl rfl fun v => Or.imp_right hp.mem_iff.mp
  poll state rest now b p q h hclear hstate hs := by
    obtain ⟨loop, hwritten, hwithin⟩ := h.within
    have hnodup := List.nodup_cons.mp h.nodup
    have hpolled (v : Negotiation) (hv : v ∈ b.due) : v.state = state :=
      (hs.offers hclear hstate (hs.mem_due_iff.mp hv).1).state
    refine ⟨hnodup.2, (List.forall_mem_cons.mp h.states).2, fun v hv => ?_, loop,
      hs.written.trans hwritten, fun id => ?_⟩
    · rw [hpolled v hv]
      exact hnodup.1
    · refine (hwithin id).mono hs.sent (hs.find? id) ?_
      rintro v (hrest | hdue)
      · exact .inl (List.mem_cons_of_mem _ hrest)
      · rw [hpolled v hdue]
        exact .inl (List.mem_cons_self ..)
  turn rest v vs p q begun counted failed agreementId answer h hheld ht := by
    obtain ⟨loop, hwritten, hwithin⟩ := h.within
    have hpassed := List.forall_mem_cons.mp h.passed
    have hsuits := Manager.suits_ending hheld.lends.applied (p.site.tries m.role v.id) begun counted
      failed agreementId answer
    refine ⟨h.nodup, h.states, hpassed.2, _, ?_,
      ht.within hsuits hheld h.states hpassed.1 hwithin⟩
    rw [ht.written, hwritten, List.append_assoc]

theorem nodup_processable (role : Role) : (State.processable role).Nodup := by
  cases role <;> decide

theorem paced_start (m : Manager) (p : Page) (hsent : p.sent = []) :
    p.Paced m p.written (State.processable m.role) [] := by
  refine ⟨nodup_processable m.role, fun _ h => h, by simp, [], by simp, fun id => ?_⟩
  have hmessages : p.messages id = 0 := by simp [messages, hsent]
  refine ⟨by omega, by simp, fun v _ _ => ⟨hmessages, ?_⟩⟩
  unfold State.hops
  split <;> simp

end Page

namespace Chronicle

variable {n : Nat} {i : Fin n} {dispatch : Transport (Timed n)}
  {connectors : Vector Connector n} {draws : Nat → Identifier} {s₀ s : Timed n}

/-- In one round a manager sends at most one message for a record, whatever becomes of it, and its
loop stores at most two versions of it, whatever commands wait. -/
theorem runOnce_speaks_once (hc : (connectors.get i).Typed)
    (hstart : (s₀.site i).store.records = [])
    (hruns : Timed.Runs (.drawing connectors draws) i s₀ s) (m : Manager)
    (hfree : ∀ id lease, (s₀.site i).store.leases.get? id = some lease →
      lease.holder ≠ m.leaseHolder) (clock : Nat → Instant) (hback : Timed.NoCallback i dispatch) :
    Yields (m.runOnce (environment clock (Roster.drawing connectors draws).ids i) (send dispatch))
      { timed := s } fun _ t => ∃ loop,
        t.written = ((m.drainCommands (environment clock (Roster.drawing connectors draws).ids
          i)).after { timed := s }).written ++ loop ∧
        ∀ id, t.sent.countP (·.processId = id) ≤ 1 ∧ loop.countP (·.id = id) ≤ 2 := by
  have hdrain : Yields (m.drainCommands (environment clock (Roster.drawing connectors draws).ids i))
      { timed := s } fun _ t => (t.site i).store.Clear m ∧ t.sent = [] :=
    drainCommands_clear (fun k => (draws k).text_ne_empty) hback (hruns.clear hc hstart hfree)
  apply (runOnce_carries (Page.carries_paced m _) hback hdrain fun hsent =>
    Page.paced_start m _ hsent).mono
  rintro _ t ⟨-, -, hpaced⟩
  obtain ⟨loop, hwritten, hwithin⟩ := hpaced.within
  exact ⟨loop, hwritten, fun id => ⟨(hwithin id).messages, (hwithin id).versions⟩⟩

def accepting : Transport (Timed 1) := fun _ => pure (.ok "peer")

def offered : Timed 1 :=
  (Service.receive Network.loneConnector
    (Timed.environment Timed.leaping Network.loneRoster.ids (Fin.last 0))
    (.offer { processId := "peer", offer := some {} }) {}).after
      (((Network.loneConnector.manager .consumer).runOnce
        (Timed.environment Timed.leaping Network.loneRoster.ids (Fin.last 0)) accepting).after
          Timed.asked)

theorem runs_offered :
    Timed.Runs Network.loneRoster 0 { network := Network.vacant } offered :=
  (((Timed.Runs.done _).call Timed.leaping (.initiate _ _)).round .consumer Timed.leaping accepting
    fun _ u => .done u).call Timed.leaping (.receive _ _ _)

theorem runOnce_speaks_once_of_offered :
    ((Network.loneConnector.consumer.runOnce (environment Timed.leaping Network.loneRoster.ids 0)
      (send accepting)).after { timed := offered }).written.map Negotiation.state =
        [.accepting, .accepted] ∧
    ((Network.loneConnector.consumer.runOnce (environment Timed.leaping Network.loneRoster.ids 0)
      (send accepting)).after { timed := offered }).sent.map RemoteMessage.processId =
        [Network.loneRoster.ids 0] ∧
    Yields (Network.loneConnector.consumer.runOnce
      (environment Timed.leaping Network.loneRoster.ids 0) (send accepting)) { timed := offered }
        fun _ t => ∃ loop,
          t.written = ((Network.loneConnector.consumer.drainCommands (environment Timed.leaping
            Network.loneRoster.ids 0)).after { timed := offered }).written ++ loop ∧
          ∀ id, t.sent.countP (·.processId = id) ≤ 1 ∧ loop.countP (·.id = id) ≤ 2 := by
  have hback : Timed.NoCallback 0 accepting := fun _ _ => rfl
  have hfree (id : String) (lease : Lease)
      (hl : (Network.vacant.site 0).store.leases.get? id = some lease) :
      lease.holder ≠ Network.loneConnector.consumer.leaseHolder := by cases hl
  exact ⟨by decide +kernel, by decide +kernel, runOnce_speaks_once Network.lone_typed rfl
    runs_offered Network.loneConnector.consumer hfree Timed.leaping hback⟩

end Chronicle

end ContractNegotiation
