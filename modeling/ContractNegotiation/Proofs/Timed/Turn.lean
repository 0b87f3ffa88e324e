import ContractNegotiation.Proofs.Page.Turn
import ContractNegotiation.Proofs.Timed

namespace ContractNegotiation

open ContractNegotiation.Action Negotiation

namespace Timed

variable {n : Nat} (m : Manager) (clock : Nat → Instant) (ids : Nat → String) (i : Fin n)
  (send : Transport (Timed n))

inductive Verdict (s : Timed n) (v : Negotiation) : Option Negotiation → Prop where
  | silent (next : Negotiation) (t : Timed n) :
      (environment clock ids i).transition v m.turn s = .ok (.applied next none) t →
      Verdict s v (some (v.successor next ""))
  | acknowledged (next : Negotiation) (message : RemoteMessage) (peer : String) (t u : Timed n) :
      (environment clock ids i).transition v m.turn s = .ok (.applied next (some message)) t →
      send message t = .ok (.ok peer) u → Verdict s v (some (v.successor next peer))
  | waits (next : Negotiation) (message : RemoteMessage) (text : String) (t u : Timed n) :
      (environment clock ids i).transition v m.turn s = .ok (.applied next (some message)) t →
      send message t = .ok (.transient text) u →
      ((s.site i).workload m.role).retries.attempts v.id + 1 < m.options.backoff.limit →
      Verdict s v none
  | exhausted (next failed : Negotiation) (message : RemoteMessage) (text : String) (k : Nat)
      (t u : Timed n) :
      (environment clock ids i).transition v m.turn s = .ok (.applied next (some message)) t →
      send message t = .ok (.transient text) u →
      m.options.backoff.limit ≤ ((s.site i).workload m.role).retries.attempts v.id + 1 →
      v.transition (.fail ("dispatch retries exhausted: " ++ text)) (clock k) "" =
        .applied failed none → Verdict s v (some (v.successor failed ""))
  | fatal (next failed : Negotiation) (message : RemoteMessage) (text : String) (k : Nat)
      (t u : Timed n) :
      (environment clock ids i).transition v m.turn s = .ok (.applied next (some message)) t →
      send message t = .ok (.fatal text) u →
      v.transition (.fail text) (clock k) "" = .applied failed none →
      Verdict s v (some (v.successor failed ""))
  | threw (next : Negotiation) (message : RemoteMessage) (fault : Fault) (t u : Timed n) :
      (environment clock ids i).transition v m.turn s = .ok (.applied next (some message)) t →
      send message t = .error fault u → Verdict s v none

/-- The dispatcher answers or fails, and has no other way to the connector. -/
def NoCallback : Prop := ∀ message (s : Timed n), ((send message).after s).site i = s.site i

variable {m clock ids i send} {s : Timed n} {v : Negotiation} {e : Ending}

theorem verdict_of_expects (hv : (s.site i).store.Lends m v)
    (he : m.Expects (environment clock ids i) (fun s => clock s.readings) send (s.page i) s v e) :
    Verdict m clock ids i send s v e.version := by
  obtain ⟨agreementId, t, counted, failed, -, ht, rfl⟩ := he
  obtain ⟨next, message, happlied⟩ := hv.applied (clock s.readings) agreementId
  have hattempts : RetryEntry.count ((s.page i).site.tries m.role v.id) =
      ((s.site i).workload m.role).retries.attempts v.id :=
    (RetryLog.attempts_eq _ _).symm
  have hfail (cause : String) : v.transition (.fail cause) (clock failed.readings) "" =
      .applied ((v.transition (.fail cause) (clock failed.readings) "").next v) none := by
    simp [transition, hv.isTerminal, Outcome.next]
  rw [happlied] at ht
  simp only [Manager.ending, happlied]
  cases message with
  | none => exact .silent next t ht
  | some message =>
    dsimp only
    cases hsend : send message t with
    | ok answer u =>
      have hanswer : (send message).outcome t = .ok answer := by rw [outcome, hsend]
      rw [hanswer]
      cases answer with
      | ok peer => exact .acknowledged next message peer t u ht hsend
      | transient text =>
        simp only [Manager.reaction, hattempts]
        split
        · rename_i hmany
          exact .exhausted next _ message text failed.readings t u ht hsend hmany (hfail _)
        · rename_i hfew
          exact .waits next message text t u ht hsend (Nat.lt_of_not_le hfew)
      | fatal text => exact .fatal next _ message text failed.readings t u ht hsend (hfail _)
    | error fault u =>
      have hanswer : (send message).outcome t = .error fault := by rw [outcome, hsend]
      rw [hanswer]
      exact .threw next message fault t u ht hsend

theorem NoCallback.posts (h : NoCallback i send) : Page.Posts (fun p s => s.site i = p.site) send :=
  fun message _ s hs => (h message s).trans hs

theorem processLeased_settles (hback : NoCallback i send) (hv : (s.site i).store.Lends m v) :
    Yields (m.processLeased (environment clock ids i) send v) s fun _ t => ∃ verdict,
      Verdict m clock ids i send s v verdict ∧
        (s.site i).store.Settles v verdict (t.site i).store := by
  apply ((situated clock ids i).processLeased_turns (p := s.page i) hv hback.posts rfl).mono
  rintro _ t ⟨e, q, ht, he, hturns⟩
  refine ⟨e.version, verdict_of_expects hv he, ?_⟩
  rw [ht]
  exact hturns.settles

end Timed

end ContractNegotiation
