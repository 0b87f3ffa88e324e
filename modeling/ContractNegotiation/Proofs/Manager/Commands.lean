import ContractNegotiation.Proofs.Manager.Desk
import Mathlib.Data.List.Induction

namespace ContractNegotiation

open ContractNegotiation.Action

namespace Desk

def Writes (m : Manager) (c : Command) (d d' : Desk) : Prop :=
  ∃ v next message, d.store.find? c.target = some v ∧ v.role = some m.role ∧
    v.transition c.event d.now "" = .applied next message ∧
    d'.store = d.store.replace { next with stateCount := v.stateCount + 1 }

def Fails (m : Manager) (c : QueuedCommand) (d d' : Desk) : Prop :=
  d.store.find? c.command.target = none ∨ ∃ v, d.store.find? c.command.target = some v ∧
    (v.role ≠ some m.role ∨ v.transition c.command.event d.now "" = .rejected ∨
      ∃ next message e, v.transition c.command.event d.now "" = .applied next message ∧
        d.Saves next "" (.error e) d' ∧
        (e.isLostRace = false ∨ c.attempts + 1 = max 1 m.options.commandMaxAttempts))

end Desk

structure Try where
  ticket : Nat
  before : Desk
  after : Desk

def Try.requeued (t : Try) : Bool := t.before.waiting.length < t.after.waiting.length

/-- All commands submitted, the tickets of those in the queue, and what the rounds have tried. -/
structure Docket where
  enqueued : List Command := []
  waiting : List Nat := []
  rounds : List (List Try) := []

namespace Docket

def tryCount (tries : List Try) (k : Nat) : Nat := tries.countP (·.ticket = k)

def queued (enqueued : List Command) (tries : List Try) (k : Nat) : QueuedCommand :=
  ⟨enqueued.getD k default, tryCount tries k⟩

def tries (d : Docket) : List Try := d.rounds.flatten

def enqueue (d : Docket) (c : Command) : Docket :=
  { d with enqueued := d.enqueued ++ [c], waiting := d.waiting ++ [d.enqueued.length] }

def Finished (d : Docket) (k : Nat) : Prop := ∃ t ∈ d.tries, t.ticket = k ∧ t.requeued = false

structure Orderly (m : Manager) (d : Docket) (queue : List QueuedCommand) : Prop where
  queue : queue = d.waiting.map (queued d.enqueued d.tries)
  nodup : d.waiting.Nodup
  conserved : ∀ k, k ∈ d.waiting ↔ k < d.enqueued.length ∧ ¬ d.Finished k
  known : ∀ t ∈ d.tries, t.ticket < d.enqueued.length
  bounded : ∀ k, (tryCount d.tries k : Int) ≤ max 1 m.options.commandMaxAttempts
  once : d.tries.Pairwise fun t t' => t.ticket = t'.ticket → t.after.store = t.before.store
  writes : ∀ t ∈ d.tries, t.after.store = t.before.store ∨
    t.before.Writes m (d.enqueued.getD t.ticket default) t.after
  fails : ∀ before t after, d.tries = before ++ t :: after → t.requeued = false →
    t.after.store = t.before.store →
    t.before.Fails m (queued d.enqueued before t.ticket) t.after
  order : ∀ before t after, d.tries = before ++ t :: after → ∀ k < t.ticket,
    ∃ t' ∈ before, t'.ticket = k
  rounds : ∀ tries ∈ d.rounds, tries.length ≤ m.options.commandBatchSize

end Docket

namespace Manager

variable {σ : Type} (m : Manager) (env : Environment σ) (desk : σ → Desk)

def tries : List Nat → List QueuedCommand → σ → List Try
  | k :: tickets, c :: batch, s =>
    let t := (m.applyCommand env c).after s
    ⟨k, desk s, desk t⟩ :: tries tickets batch t
  | _, _, _ => []

def docketAfter (d : Docket) (s : σ) : Docket :=
  let limit := m.options.commandBatchSize
  let tries := m.tries env desk (d.waiting.take limit) ((desk s).waiting.take limit)
    ((m.takeCommands env).after s)
  { d with
    waiting := d.waiting.drop limit ++ (tries.filter Try.requeued).map Try.ticket
    rounds := d.rounds ++ [tries] }

/-- Runs of a manager whose queue is empty at first. Others may do anything except to its queue, and
so may whatever sends its messages. -/
inductive Runs : σ → Docket → Prop where
  | start (s : σ) : (desk s).waiting = [] → Runs s {}
  | enqueue {s : σ} {d : Docket} (c : Command) : Runs s d →
      Runs ((m.enqueue env c).after s) (d.enqueue c)
  | round {s : σ} {d : Docket} (send : Transport σ) : Runs s d →
      (∀ message s, Ends (send message) s fun _ t => (desk t).waiting = (desk s).waiting) →
      Runs ((m.runOnce env send).after s) (m.docketAfter env desk d s)
  | operate {s : σ} {d : Docket} (x : Action σ (Except Refusal Negotiation)) : Runs s d →
      m.Synchronous env x → Runs (x.after s) d
  | elsewhere {s : σ} {d : Docket} (t : σ) : Runs s d → (desk t).waiting = (desk s).waiting →
      Runs t d

end Manager

section Frames

variable {d d' : Desk} {m : Manager} {n next : Negotiation} {holder : String} {role : Role}
  {answer : Except StoreError Negotiation}

theorem Desk.Saves.waiting (h : d.Saves n holder answer d') : d'.waiting = d.waiting := by
  cases h <;> rfl

theorem Desk.Persists.waiting (h : d.Persists n holder answer d') : d'.waiting = d.waiting := by
  cases h with
  | refused _ _ h => exact h.waiting
  | written _ _ h => exact h.waiting

theorem Desk.Served.waiting (h : d.Served role d') : d'.waiting = d.waiting := by
  cases h with
  | idle => rfl
  | refused _ _ _ h => exact h.waiting
  | moved _ _ _ _ _ _ _ _ _ _ h => exact h.waiting
  | opened _ _ _ _ _ h => exact h.waiting

theorem Desk.breakLease_waiting (d : Desk) (id holder : String) :
    (d.breakLease id holder).waiting = d.waiting := by
  unfold Desk.breakLease
  split <;> rfl

theorem Desk.countFailure_waiting {b : Backoff} {id : String} {exhausted : Bool}
    (h : d.countFailure b id = (exhausted, d')) : d'.waiting = d.waiting := by
  cases h
  rfl

theorem Desk.Turned.waiting
    {Sends : RemoteMessage → Desk → Except Fault DispatchResult → Desk → Prop}
    (hsend : ∀ message d r d', Sends message d r d' → d'.waiting = d.waiting)
    (h : d.Turned m Sends n d') : d'.waiting = d.waiting := by
  cases h with
  | passed => rfl
  | silent _ _ _ _ _ hp => exact hp.waiting
  | threw _ _ _ _ _ _ hs => exact hsend _ _ _ _ hs
  | acknowledged _ _ _ _ _ _ _ _ hs hp =>
    have hs := hsend _ _ _ _ hs
    exact hp.waiting.trans hs
  | waits _ _ _ _ _ _ _ hs hc => exact (countFailure_waiting hc).trans (hsend _ _ _ _ hs)
  | exhausted _ _ _ _ _ _ _ _ _ _ hs hc hp =>
    exact hp.waiting.trans ((countFailure_waiting hc).trans (hsend _ _ _ _ hs))
  | fatal _ _ _ _ _ _ _ _ hs hp =>
    have hs := hsend _ _ _ _ hs
    exact hp.waiting.trans hs

theorem Desk.Tried.waiting {c : QueuedCommand} (h : d.Tried m c d') :
    d'.waiting = d.waiting ∨
      d'.waiting = d.waiting ++ [{ c with attempts := c.attempts + 1 }] ∧
        c.attempts + 1 < m.options.commandMaxAttempts ∧ d'.store = d.store := by
  cases h with
  | missing | foreign | rejected => exact .inl rfl
  | written _ _ _ _ _ _ _ _ hp => exact .inl hp.waiting
  | dropped _ _ _ _ _ _ _ _ hp => exact .inl hp.waiting
  | requeued _ _ _ _ d' _ _ _ hp _ hc =>
    have hw := hp.waiting
    cases hp with
    | refused _ _ hs =>
      cases hs
      exact .inr ⟨congrArg (· ++ _) hw, hc, rfl⟩

theorem Desk.Tried.writes {c : QueuedCommand} (h : d.Tried m c d') :
    d'.store = d.store ∨ d.Writes m c.command d' := by
  cases h with
  | missing | foreign | rejected => exact .inl rfl
  | dropped _ _ _ _ _ _ _ _ hp | requeued _ _ _ _ _ _ _ _ hp =>
    cases hp with
    | refused _ _ hs => exact .inl hs.store_eq
  | written v next w message d' hv hrole ht hp =>
    obtain ⟨hm, rfl⟩ := hp.moved hv ht
    exact .inr ⟨v, next, message, hv, hrole, ht, hm.store⟩

theorem Desk.Tried.fails {c : QueuedCommand} (h : d.Tried m c d') (hstore : d'.store = d.store)
    (hqueue : d'.waiting ≠ d.waiting ++ [{ c with attempts := c.attempts + 1 }])
    (hattempts : 0 ≤ c.attempts)
    (hbounded : c.attempts + 1 ≤ max 1 m.options.commandMaxAttempts) : d.Fails m c d' := by
  cases h with
  | missing hv => exact .inl hv
  | foreign v hv hrole => exact .inr ⟨v, hv, .inl hrole⟩
  | rejected v hv hrole ht => exact .inr ⟨v, hv, .inr (.inl ht)⟩
  | dropped v next message e d' hv hrole ht hp hlost =>
    cases hp with
    | refused _ _ hs =>
      refine .inr ⟨v, hv, .inr (.inr ⟨next, message, e, ht, hs, ?_⟩)⟩
      cases hrace : e.isLostRace with
      | false => exact .inl rfl
      | true =>
        simp only [hrace, true_and, Int.not_lt] at hlost
        exact .inr (by omega)
  | requeued v next message e d' hv hrole ht hp =>
    exact absurd (congrArg (· ++ _) hp.waiting) hqueue
  | written v next w message d' hv hrole ht hp =>
    obtain ⟨hm, rfl⟩ := hp.moved hv ht
    have hw := hm.find? v.id
    have hid := (Negotiation.row_of_transition ht).continues.id
    rw [if_pos hid.symm, show d'.store = d.store from hstore, hm.stored] at hw
    have hcount := congrArg Negotiation.stateCount (Option.some.inj hw)
    simp at hcount

end Frames

namespace Docket

theorem append_singleton_eq {α : Type} {xs before after : List α} {x y : α}
    (h : xs ++ [y] = before ++ x :: after) :
    before = xs ∧ x = y ∨ ∃ rest, xs = before ++ x :: rest := by
  induction after using List.reverseRecOn with
  | nil =>
    obtain ⟨hxs, hy⟩ := List.append_inj' h rfl
    exact .inl ⟨hxs.symm, (List.singleton_injective hy).symm⟩
  | append_singleton rest z _ =>
    rw [← List.cons_append, ← List.append_assoc] at h
    exact .inr ⟨rest, (List.append_inj' h rfl).1⟩

theorem tryCount_append (tries : List Try) (t : Try) (k : Nat) :
    tryCount (tries ++ [t]) k = tryCount tries k + if t.ticket = k then 1 else 0 := by
  simp [tryCount, List.countP_append, List.countP_singleton]

theorem tryCount_pos {tries : List Try} {k : Nat} :
    0 < tryCount tries k ↔ ∃ t ∈ tries, t.ticket = k := by
  simp [tryCount, List.countP_pos_iff]

theorem queued_enqueue {enqueued : List Command} {tries : List Try} {k : Nat} (c : Command)
    (hk : k < enqueued.length) :
    queued (enqueued ++ [c]) tries k = queued enqueued tries k := by
  simp only [queued, List.getD_eq_getElem?_getD, List.getElem?_append_left hk]

/-- The tickets still to be tried stand in `line`, those that have been tried before behind others
that have not. -/
structure Line (m : Manager) (enqueued : List Command) (line : List Nat) (tries : List Try) :
    Prop where
  nodup : line.Nodup
  waiting : ∀ k, k ∈ line ↔
    k < enqueued.length ∧ ∀ t ∈ tries, t.ticket = k → t.requeued = true
  known : ∀ t ∈ tries, t.ticket < enqueued.length
  permitted : ∀ k ∈ line, tryCount tries k = 0 ∨
    (tryCount tries k : Int) < m.options.commandMaxAttempts
  bounded : ∀ k, (tryCount tries k : Int) ≤ max 1 m.options.commandMaxAttempts
  again : tries.Pairwise fun t t' => t.ticket = t'.ticket → t.requeued = true
  fates : ∀ before t after, tries = before ++ t :: after →
    t.before.Tried m (queued enqueued before t.ticket) t.after
  order : ∀ before t after, tries = before ++ t :: after →
    ∀ k < t.ticket, 0 < tryCount before k
  untried : (line.filter fun k => tryCount tries k = 0).Pairwise (· < ·)

variable {m : Manager} {enqueued : List Command} {line : List Nat} {tries : List Try} {k : Nat}
  {t : Try}

theorem line_nil (m : Manager) : Line m [] [] [] where
  nodup := .nil
  waiting k := by simp
  known _ h := by cases h
  permitted _ h := by cases h
  bounded k := by
    simp only [tryCount, List.countP_nil]
    omega
  again := .nil
  fates _ _ _ h := by simp at h
  order _ _ _ h := by simp at h
  untried := .nil

theorem Line.tryCount_length (h : Line m enqueued line tries) :
    tryCount tries enqueued.length = 0 := by
  refine Nat.eq_zero_of_not_pos fun hpos => ?_
  obtain ⟨t, ht, hk⟩ := tryCount_pos.mp hpos
  exact Nat.lt_irrefl _ (hk ▸ h.known t ht)

theorem Line.enqueue (h : Line m enqueued line tries) (c : Command) :
    Line m (enqueued ++ [c]) (line ++ [enqueued.length]) tries := by
  have hnew : enqueued.length ∉ line := fun hk => Nat.lt_irrefl _ ((h.waiting _).mp hk).1
  constructor
  case nodup =>
    refine List.nodup_append.mpr ⟨h.nodup, List.nodup_singleton _, ?_⟩
    rintro k hk _ hlast rfl
    exact hnew (List.mem_singleton.mp hlast ▸ hk)
  case waiting =>
    intro k
    rw [List.mem_append, List.mem_singleton, h.waiting, List.length_append, List.length_singleton]
    constructor
    · rintro (⟨hk, ht⟩ | rfl)
      · exact ⟨by omega, ht⟩
      · exact ⟨by omega, fun t ht hk => absurd (h.known t ht) (by omega)⟩
    · rintro ⟨hk, ht⟩
      by_cases hlast : k = enqueued.length
      · exact .inr hlast
      · exact .inl ⟨by omega, ht⟩
  case known =>
    intro t ht
    have hk := h.known t ht
    rw [List.length_append]
    omega
  case permitted =>
    intro k hk
    rcases List.mem_append.mp hk with hk | hk
    · exact h.permitted k hk
    · exact .inl (List.mem_singleton.mp hk ▸ h.tryCount_length)
  case bounded => exact h.bounded
  case again => exact h.again
  case fates =>
    intro before t after he
    have hk := h.known t (by simp [he])
    rw [queued_enqueue c hk]
    exact h.fates before t after he
  case order => exact h.order
  case untried =>
    rw [List.filter_append, List.pairwise_append]
    refine ⟨h.untried, List.Pairwise.filter _ (List.pairwise_singleton _ _), ?_⟩
    intro k hk k' hk'
    have hk := ((h.waiting k).mp (List.mem_of_mem_filter hk)).1
    rw [List.mem_singleton.mp (List.mem_of_mem_filter hk')]
    exact hk

theorem Line.lower (h : Line m enqueued (k :: line) tries) : ∀ j < k, 0 < tryCount tries j := by
  intro j hj
  by_contra hnone
  have hnone : tryCount tries j = 0 := by omega
  have hk := (h.waiting k).mp (List.mem_cons_self ..)
  have hmem : j ∈ k :: line := by
    refine (h.waiting j).mpr ⟨by omega, fun t ht he => ?_⟩
    have hpos := tryCount_pos.mpr ⟨t, ht, he⟩
    omega
  have hmem : j ∈ line := (List.mem_cons.mp hmem).resolve_left (by omega)
  by_cases hfirst : tryCount tries k = 0
  · -- Tickets without a try stand in their order, so `j` cannot stand behind `k`.
    have hlt := h.untried
    rw [List.filter_cons_of_pos (by simpa using hfirst), List.pairwise_cons] at hlt
    have := hlt.1 j (List.mem_filter.mpr ⟨hmem, by simpa using hnone⟩)
    omega
  · -- The lower tickets were tried before `k` was for the first time.
    obtain ⟨t, ht, rfl⟩ := tryCount_pos.mp (Nat.pos_of_ne_zero hfirst)
    obtain ⟨before, after, rfl⟩ := List.append_of_mem ht
    have hpos := h.order before t after rfl j hj
    simp only [tryCount, List.countP_append] at hpos hnone
    omega

theorem permitted_of_requeued {c : QueuedCommand} (h : t.before.Tried m c t.after)
    (hr : t.requeued = true) : c.attempts + 1 < m.options.commandMaxAttempts := by
  rcases h.waiting with hw | ⟨-, hlt, -⟩
  · simp [Try.requeued, hw] at hr
  · exact hlt

def rejoin (line : List Nat) (t : Try) : List Nat :=
  line ++ if t.requeued then [t.ticket] else []

theorem mem_rejoin : k ∈ rejoin line t ↔ k ∈ line ∨ k = t.ticket ∧ t.requeued = true := by
  unfold rejoin
  split <;> simp [*]

theorem nodup_rejoin (h : (t.ticket :: line).Nodup) : (rejoin line t).Nodup := by
  obtain ⟨hnotin, hnodup⟩ := List.nodup_cons.mp h
  unfold rejoin
  split
  · exact List.nodup_append_comm.mp (by simpa using ⟨hnotin, hnodup⟩)
  · rwa [List.append_nil]

theorem untried_rejoin : ((rejoin line t).filter fun j => tryCount (tries ++ [t]) j = 0).Sublist
    ((t.ticket :: line).filter fun j => tryCount tries j = 0) := by
  have hlast : ((if t.requeued then [t.ticket] else []).filter fun j =>
      decide (tryCount (tries ++ [t]) j = 0)) = [] := by
    split <;> simp [tryCount_append]
  have hweaker : (line.filter fun j => decide (tryCount (tries ++ [t]) j = 0)).Sublist
      (line.filter fun j => decide (tryCount tries j = 0)) := by
    refine List.monotone_filter_right line fun j hj => ?_
    simp only [tryCount_append, decide_eq_true_eq] at hj ⊢
    omega
  rw [rejoin, List.filter_append, hlast, List.append_nil]
  exact hweaker.trans ((List.sublist_cons_self t.ticket line).filter _)

theorem Line.tried (h : Line m enqueued (t.ticket :: line) tries)
    (ht : t.before.Tried m (queued enqueued tries t.ticket) t.after) :
    Line m enqueued (rejoin line t) (tries ++ [t]) := by
  obtain ⟨hlen, hagain⟩ := (h.waiting t.ticket).mp (List.mem_cons_self ..)
  have hnotin := (List.nodup_cons.mp h.nodup).1
  have hpermitted := h.permitted t.ticket (List.mem_cons_self ..)
  constructor
  case nodup => exact nodup_rejoin h.nodup
  case waiting =>
    intro k
    rw [mem_rejoin]
    by_cases hk : k = t.ticket
    · subst hk
      simp only [hnotin, false_or, true_and, hlen, List.mem_append, List.mem_singleton]
      constructor
      · rintro hr t' (ht' | rfl) he
        · exact hagain t' ht' he
        · exact hr
      · exact fun hall => hall t (.inr rfl) rfl
    · have hwaiting := h.waiting k
      rw [List.mem_cons, or_iff_right hk] at hwaiting
      simp only [hk, false_and, or_false, hwaiting, List.mem_append, List.mem_singleton]
      refine and_congr_right fun _ => ⟨?_, fun hall t' ht' => hall t' (.inl ht')⟩
      rintro hall t' (ht' | rfl) he
      · exact hall t' ht' he
      · exact absurd he.symm hk
  case known =>
    intro t' ht'
    rcases List.mem_append.mp ht' with ht' | ht'
    · exact h.known t' ht'
    · rw [List.mem_singleton.mp ht']
      exact hlen
  case permitted =>
    intro k hk
    rw [tryCount_append]
    rcases mem_rejoin.mp hk with hk | ⟨rfl, hr⟩
    · have hne : ¬ t.ticket = k := fun he => hnotin (he ▸ hk)
      rw [if_neg hne, Nat.add_zero]
      exact h.permitted k (List.mem_cons_of_mem _ hk)
    · rw [if_pos rfl]
      exact .inr (permitted_of_requeued ht hr)
  case bounded =>
    intro k
    have hbounded := h.bounded k
    rw [tryCount_append]
    split
    · rename_i hk
      subst hk
      omega
    · omega
  case again =>
    refine List.pairwise_append.mpr ⟨h.again, List.pairwise_singleton _ _, ?_⟩
    intro t' ht' t'' ht'' he
    obtain rfl := List.mem_singleton.mp ht''
    exact hagain t' ht' he
  case fates =>
    intro before t' after he
    rcases append_singleton_eq he with ⟨rfl, rfl⟩ | ⟨rest, he⟩
    · exact ht
    · exact h.fates before t' rest he
  case order =>
    intro before t' after he
    rcases append_singleton_eq he with ⟨rfl, rfl⟩ | ⟨rest, he⟩
    · exact h.lower
    · exact h.order before t' rest he
  case untried => exact h.untried.sublist untried_rejoin

end Docket

namespace Manager

open Docket

variable {σ : Type} {m : Manager} {env : Environment σ} {desk : σ → Desk} {s : σ}
  {enqueued : List Command} {line : List Nat} {tries : List Try}

theorem queued_append {t : Try} {ks : List Nat} (hk : t.ticket ∉ ks) :
    ks.map (queued enqueued (tries ++ [t])) = ks.map (queued enqueued tries) := by
  apply List.map_congr_left
  intro k hmem
  have hne : t.ticket ≠ k := fun he => hk (he ▸ hmem)
  simp only [queued, tryCount_append, if_neg hne, Nat.add_zero]

theorem length_tries (tickets : List Nat) (batch : List QueuedCommand) (s : σ) :
    (m.tries env desk tickets batch s).length ≤ tickets.length := by
  induction tickets generalizing batch s with
  | nil => simp [Manager.tries]
  | cons k tickets ih =>
    cases batch with
    | nil => simp [Manager.tries]
    | cons c batch => simpa [Manager.tries] using ih batch _

variable (h : env.Faithful m.role desk)
include h

theorem batch_docket {tickets : List Nat} (hline : Line m enqueued (tickets ++ line) tries)
    (hqueue : (desk s).waiting = line.map (queued enqueued tries)) :
    Ends (each (m.applyCommand env) (tickets.map (queued enqueued tries))) s fun _ t =>
      let new := m.tries env desk tickets (tickets.map (queued enqueued tries)) s
      let line := line ++ (new.filter Try.requeued).map Try.ticket
      Line m enqueued line (tries ++ new) ∧
        (desk t).waiting = line.map (queued enqueued (tries ++ new)) := by
  -- The commands in hand stand before those in the queue; a requeued one joins the latter.
  induction tickets generalizing s line tries with
  | nil => simpa [Manager.tries, each, ends_pure] using And.intro hline hqueue
  | cons k tickets ih =>
    rw [List.cons_append] at hline
    refine ((applyCommand_tried h (queued enqueued tries k)).and ends_after).bind ?_ ?_
    rotate_left
    · rintro _ _ ⟨⟨⟨_, hr⟩, -⟩, -⟩
      cases hr
    rintro _ t ⟨⟨-, htried⟩, ht⟩
    have hk : k ∉ tickets ++ line := (List.nodup_cons.mp hline.nodup).1
    let first : Try := ⟨k, desk s, desk t⟩
    have hcons : m.tries env desk (k :: tickets) ((k :: tickets).map (queued enqueued tries)) s =
        first :: m.tries env desk tickets (tickets.map (queued enqueued tries)) t := by
      subst ht
      rfl
    have hnext := hline.tried (t := first) htried
    rw [rejoin, List.append_assoc] at hnext
    have hqueue' : (desk t).waiting =
        (rejoin line first).map (queued enqueued (tries ++ [first])) := by
      rw [rejoin, List.map_append, queued_append (fun hmem => hk (List.mem_append_right _ hmem)),
        ← hqueue]
      rcases htried.waiting with hw | ⟨hw, -, -⟩
      · simp [first, Try.requeued, hw]
      · simp [first, Try.requeued, hw, queued, tryCount_append]
    have hrest := ih hnext hqueue'
    rw [queued_append (fun hmem => hk (List.mem_append_left _ hmem))] at hrest
    rw [hcons]
    refine hrest.mono fun _ u hu => ?_
    cases hr : first.requeued <;> simpa [rejoin, hr, first] using hu

theorem drainCommands_docket {d : Docket} (hline : Line m d.enqueued d.waiting d.tries)
    (hqueue : (desk s).waiting = d.waiting.map (queued d.enqueued d.tries)) :
    Ends (m.drainCommands env) s fun _ t =>
      let d := m.docketAfter env desk d s
      Line m d.enqueued d.waiting d.tries ∧
        (desk t).waiting = d.waiting.map (queued d.enqueued d.tries) := by
  refine ((takeCommands_desk h).and ends_after).bind ?_ (fun _ _ hr => by cases hr.1.1)
  rintro batch t ⟨⟨hr, ht⟩, rfl⟩
  obtain rfl := Except.ok.inj hr
  have hbatch : (desk s).waiting.take m.options.commandBatchSize =
      (d.waiting.take m.options.commandBatchSize).map (queued d.enqueued d.tries) := by
    rw [List.map_take, ← hqueue]
  have hrest : (desk ((m.takeCommands env).after s)).waiting =
      (d.waiting.drop m.options.commandBatchSize).map (queued d.enqueued d.tries) := by
    rw [List.map_drop, ← hqueue, ht]
    rfl
  rw [← List.take_append_drop m.options.commandBatchSize d.waiting] at hline
  have hends := batch_docket h hline hrest
  rw [← hbatch] at hends
  refine hends.andPure.mono fun _ u hu => ?_
  simpa [docketAfter, Docket.tries] using hu

/-- Each try begins where the one before it has ended, and the last one ends with the batch. -/
theorem tries_each {tickets : List Nat} {batch : List QueuedCommand}
    (hlength : tickets.length = batch.length) :
    Ends (each (m.applyCommand env) batch) s fun _ t =>
      (m.tries env desk tickets batch s).map Try.before ++ [desk t] =
        desk s :: (m.tries env desk tickets batch s).map Try.after := by
  induction batch generalizing s tickets with
  | nil => simp [List.eq_nil_of_length_eq_zero hlength, Manager.tries, each, ends_pure]
  | cons c batch ih =>
    obtain ⟨k, tickets, rfl⟩ := List.exists_cons_of_length_eq_add_one hlength
    refine ((applyCommand_tried h c).and ends_after).bind ?_ ?_
    · rintro _ t ⟨-, rfl⟩
      apply (ih (Nat.succ.inj hlength)).mono
      intro _ u hu
      simpa only [Manager.tries, List.map_cons, List.cons_append] using congrArg (desk s :: ·) hu
    · rintro _ _ ⟨⟨⟨_, hr⟩, -⟩, -⟩
      cases hr

omit h in
theorem polls_waiting (queue : List QueuedCommand) :
    m.Polls (fun _ d _ d' => d'.waiting = d.waiting) fun _ _ d => d.waiting = queue where
  drop _ _ _ _ hd _ := hd
  lease _ _ _ _ hd _ := hd
  check _ _ _ _ hd _ := hd
  release _ n _ d hd := (d.breakLease_waiting n.id m.leaseHolder).trans hd
  turn n _ d d' hd ht := by
    rw [Desk.breakLease_waiting, ht.waiting fun _ _ _ _ hsent => hsent, hd]

theorem Runs.kept {d : Docket} (hr : m.Runs env desk s d) :
    Line m d.enqueued d.waiting d.tries ∧
      (desk s).waiting = d.waiting.map (queued d.enqueued d.tries) := by
  induction hr with
  | start s hs => exact ⟨line_nil m, hs⟩
  | @enqueue s d c _ ih =>
    have hline := ih.1.enqueue c
    have hends : Ends (m.enqueue env c) s fun _ t =>
        (desk t).waiting = (desk s).waiting ++ [⟨c, 0⟩] := by
      refine (h.report _).bind_ends fun _ t ht => ?_
      refine (update_acts h _ t).mono fun _ u hu => ?_
      rw [hu.2, ht]
      rfl
    refine ⟨hline, hends.after.trans ?_⟩
    have hnew : queued (d.enqueued ++ [c]) d.tries d.enqueued.length = ⟨c, 0⟩ := by
      simp [queued, ih.1.tryCount_length]
    have hold : d.waiting.map (queued (d.enqueued ++ [c]) d.tries) =
        d.waiting.map (queued d.enqueued d.tries) :=
      List.map_congr_left fun k hk => queued_enqueue c ((ih.1.waiting k).mp hk).1
    simp only [Docket.enqueue, List.map_append, List.map_cons, List.map_nil]
    rw [ih.2]
    exact congrArg₂ (· ++ [·]) hold.symm hnew.symm
  | @round s d send _ hsend ih =>
    have hdrain := drainCommands_docket h ih.1 ih.2
    have hline : Ends (m.drainCommands env) s fun _ _ =>
        Line m (m.docketAfter env desk d s).enqueued (m.docketAfter env desk d s).waiting
          (m.docketAfter env desk d s).tries := hdrain.mono fun _ _ hd => hd.1
    have hround := runOnce_polls h hsend (polls_waiting _) (hdrain.mono fun _ _ hd => hd.2)
    exact ⟨hline.after (R := fun _ => _), hround.after⟩
  | @operate s d x _ hx ih =>
    have hends : Ends x s fun _ t => (desk t).waiting = (desk s).waiting :=
      (Synchronous.served h hx).mono fun _ _ hu => hu.waiting
    exact ⟨ih.1, hends.after.trans ih.2⟩
  | elsewhere t _ ht ih => exact ⟨ih.1, ht.trans ih.2⟩

/-- What a round adds to the docket is what draining the queue does to the desk, from the commands
taken to the end. -/
theorem Runs.drained {d : Docket} (hr : m.Runs env desk s d) :
    ∃ tries, (m.docketAfter env desk d s).rounds = d.rounds ++ [tries] ∧
      tries.map Try.before ++ [desk ((m.drainCommands env).after s)] =
        desk ((m.takeCommands env).after s) :: tries.map Try.after := by
  let limit := m.options.commandBatchSize
  let tries := m.tries env desk (d.waiting.take limit) ((desk s).waiting.take limit)
    ((m.takeCommands env).after s)
  have hlength : (d.waiting.take limit).length = ((desk s).waiting.take limit).length := by
    rw [(hr.kept h).2, List.length_take, List.length_take, List.length_map]
  have hdrain : Ends (m.drainCommands env) s fun _ t => tries.map Try.before ++ [desk t] =
      desk ((m.takeCommands env).after s) :: tries.map Try.after := by
    refine ((takeCommands_desk h).and ends_after).bind ?_ (fun _ _ hr => by cases hr.1.1)
    rintro _ _ ⟨⟨hbatch, -⟩, rfl⟩
    obtain rfl := Except.ok.inj hbatch
    exact (tries_each h hlength).andPure
  exact ⟨tries, rfl, hdrain.after⟩

omit h in
theorem Runs.rounds {d : Docket} (hr : m.Runs env desk s d) :
    ∀ tries ∈ d.rounds, tries.length ≤ m.options.commandBatchSize := by
  induction hr with
  | start => simp
  | enqueue c _ ih => exact ih
  | round send _ _ ih =>
    intro tries htries
    rcases List.mem_append.mp htries with htries | htries
    · exact ih tries htries
    · rw [List.mem_singleton.mp htries]
      exact Nat.le_trans (length_tries _ _ _) (List.length_take_le _ _)
  | operate x _ _ ih => exact ih
  | elsewhere t _ _ ih => exact ih

end Manager

namespace Docket

variable {m : Manager} {d : Docket} {enqueued : List Command} {line : List Nat} {tries : List Try}
  {t : Try} {k : Nat}

theorem Line.fate (h : Line m enqueued line tries) (ht : t ∈ tries) :
    ∃ before, t.before.Tried m (queued enqueued before t.ticket) t.after := by
  obtain ⟨before, after, he⟩ := List.append_of_mem ht
  exact ⟨before, h.fates before t after he⟩

theorem Line.once (h : Line m enqueued line tries) : tries.Pairwise fun t t' =>
    t.ticket = t'.ticket → t.after.store = t.before.store := by
  refine h.again.imp_of_mem ?_
  intro t t' ht _ hagain he
  obtain ⟨before, htried⟩ := h.fate ht
  rcases htried.waiting with hw | ⟨-, -, hstore⟩
  · have hr := hagain he
    simp [Try.requeued, hw] at hr
  · exact hstore

theorem Line.fails (h : Line m enqueued line tries) {before after : List Try}
    (he : tries = before ++ t :: after) (hr : t.requeued = false)
    (hstore : t.after.store = t.before.store) :
    t.before.Fails m (queued enqueued before t.ticket) t.after := by
  have hbounded := h.bounded t.ticket
  simp only [he, tryCount, List.countP_append, List.countP_cons_of_pos, decide_true] at hbounded
  refine (h.fates before t after he).fails hstore ?_ (Int.natCast_nonneg _) ?_
  · intro hw
    simp [Try.requeued, hw] at hr
  · simp only [queued, tryCount]
    omega

/-- Whatever its store refuses and whoever else writes the records, a manager keeps each command
until one of its tries has settled it, and writes at most once for it. -/
theorem commands_orderly {n : Nat} {ids : Nat → String} {i : Fin n} {j : Journal n}
    (h : m.Runs (Journal.environment ids i) (Journal.desk i m.role) j d) :
    d.Orderly m (Journal.desk i m.role j).waiting := by
  obtain ⟨hline, hqueue⟩ := h.kept (Journal.faithful ids i m.role)
  refine ⟨hqueue, hline.nodup, ?_, hline.known, hline.bounded, hline.once, ?_, ?_, ?_, h.rounds⟩
  · intro k
    simp only [hline.waiting, Finished, not_exists, not_and, Bool.not_eq_false]
  · intro t ht
    obtain ⟨before, htried⟩ := hline.fate ht
    exact htried.writes
  · exact fun before t after he => hline.fails he
  · exact fun before t after he k hk => tryCount_pos.mp (hline.order before t after he k hk)

theorem commands_orderly_of_race : ∃ (m : Manager) (j : Journal 1) (d : Docket),
    m.Runs (Journal.environment (fun _ => "") 0) (Journal.desk 0 m.role) j d ∧
      (d.tries.map fun t => (t.ticket, t.requeued)) = [(0, true), (0, false)] ∧
      ((j.site 0).store.find? "n").map Negotiation.state = some .cancelled ∧
      d.Orderly m (Journal.desk 0 m.role j).waiting := by
  let m := Manager.create .consumer {} "0"
  let n : Negotiation := { id := "n", role := some .consumer, stateCode := 100, stateCount := 1 }
  let j : Journal 1 := {
    network := { sites := #v[{ store := { records := [n] } }] }
    refusals := [some (.stale 1 2)] }
  have h : m.Runs (Journal.environment (fun _ => "") 0) (Journal.desk 0 m.role) j {} := .start j rfl
  have h := h.enqueue (.cancel "n")
  have h := h.round (fun _ => pure (.ok "")) fun _ _ => rfl
  have h := h.round (fun _ => pure (.ok "")) fun _ _ => rfl
  exact ⟨m, _, _, h, by decide +kernel, by decide +kernel, commands_orderly h⟩

end Docket

end ContractNegotiation
