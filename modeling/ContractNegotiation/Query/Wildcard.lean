import ContractNegotiation.Text

namespace ContractNegotiation.Query.Wildcard

variable {α : Type} {wildcard : α}

structure Scan (wildcard : α) where
  pattern : List α
  value : List α
  resume : Option (List α × List α)
  passed : ∀ r ∈ resume, ∃ run, wildcard ∉ run ∧ r.1 = run ++ pattern ∧ r.2 = run ++ value

namespace Scan

def start (wildcard : α) (pattern value : List α) : Scan wildcard := ⟨pattern, value, none, nofun⟩

def behind (wildcard : α) (pattern value : List α) : Scan wildcard where
  pattern := pattern
  value := value
  resume := some (pattern, value)
  passed := by
    rintro r ⟨rfl⟩
    exact ⟨[], by simp⟩

def pass (s : Scan wildcard) {c : α} {pattern value : List α} (hp : s.pattern = c :: pattern)
    (hv : s.value = c :: value) (hc : c ≠ wildcard) : Scan wildcard where
  pattern := pattern
  value := value
  resume := s.resume
  passed r hr := by
    obtain ⟨run, hrun, hpattern, hvalue⟩ := s.passed r hr
    refine ⟨run ++ [c], ?_, by simp [hpattern, hp], by simp [hvalue, hv]⟩
    simpa [hrun] using Ne.symm hc

def extend? (s : Scan wildcard) : Option (Scan wildcard) :=
  match s.resume with
  | some (pattern, _ :: value) => some (behind wildcard pattern value)
  | _ => none

def next? [DecidableEq α] (s : Scan wildcard) : Option (Scan wildcard) :=
  match hv : s.value with
  | [] => none
  | x :: _ =>
    match hp : s.pattern with
    | [] => s.extend?
    | c :: pattern =>
      if hc : c = wildcard then some (behind wildcard pattern s.value)
      else if hx : c = x then some (s.pass hp (hx ▸ hv) hc)
      else s.extend?

structure Mismatch (s : Scan wildcard) : Prop where
  value : s.value ≠ []
  pattern : ∀ c pattern, s.pattern = c :: pattern → c ≠ wildcard ∧ ∀ value, s.value ≠ c :: value

inductive Next (s : Scan wildcard) : Option (Scan wildcard) → Prop where
  | ended : s.value = [] → Next s none
  | meet (pattern : List α) : s.pattern = wildcard :: pattern → s.value ≠ [] →
      Next s (some (behind wildcard pattern s.value))
  | pass (c : α) (pattern value : List α) (hp : s.pattern = c :: pattern)
      (hv : s.value = c :: value) (hc : c ≠ wildcard) : Next s (some (s.pass hp hv hc))
  | extend (next : Option (Scan wildcard)) : s.Mismatch → s.extend? = next → Next s next

variable {s t : Scan wildcard}

theorem next_next? [DecidableEq α] (s : Scan wildcard) : s.Next s.next? := by
  unfold next?
  split
  · rename_i hv
    exact .ended hv
  · rename_i x value hv
    have hvalue : s.value ≠ [] := by simp [hv]
    split
    · rename_i hp
      exact .extend _ ⟨hvalue, by simp [hp]⟩ rfl
    · rename_i c pattern hp
      by_cases hc : c = wildcard
      · rw [dif_pos hc]
        exact .meet pattern (hc ▸ hp) hvalue
      by_cases hx : c = x
      · rw [dif_neg hc, dif_pos hx]
        exact .pass c pattern value hp (hx ▸ hv) hc
      · rw [dif_neg hc, dif_neg hx]
        refine .extend _ ⟨hvalue, ?_⟩ rfl
        rintro c' pattern' hp'
        obtain ⟨rfl, rfl⟩ := List.cons.inj (hp.symm.trans hp')
        exact ⟨hc, fun value' hv' => hx (List.cons.inj (hv.symm.trans hv')).1.symm⟩

theorem extend?_eq_some (h : s.extend? = some t) : ∃ pattern x value,
    s.resume = some (pattern, x :: value) ∧ t = behind wildcard pattern value := by
  unfold extend? at h
  split at h
  · rename_i pattern x value hr
    exact ⟨pattern, x, value, hr, (Option.some.inj h).symm⟩
  · cases h

/-- What is left to try: the pattern behind the last wildcard, the value behind its run, and the
value behind the symbols passed. -/
def left (s : Scan wildcard) : Nat × Nat × Nat :=
  (s.resume.elim s.pattern.length (·.1.length), s.resume.elim 0 (·.2.length), s.value.length)

theorem Next.left_lt (h : s.Next (some t)) :
    Prod.Lex (· < ·) (Prod.Lex (· < ·) (· < ·)) t.left s.left := by
  cases h with
  | meet pattern hp hv =>
    apply Prod.Lex.left
    cases hr : s.resume with
    | none => simp [behind, hp]
    | some r =>
      obtain ⟨run, -, hrun, -⟩ := s.passed r hr
      simp only [behind, Option.elim_some, hrun, hp, List.length_append, List.length_cons]
      omega
  | pass c pattern value hp hv hc =>
    cases hr : s.resume with
    | none =>
      apply Prod.Lex.left
      simp [Scan.pass, hr, hp]
    | some r =>
      simp only [left, Scan.pass, hr, hv]
      exact Prod.Lex.right _ (Prod.Lex.right _ (by simp))
  | extend _ hm hextend =>
    obtain ⟨pattern, x, value, hr, rfl⟩ := extend?_eq_some hextend
    simp only [left, behind, hr]
    exact Prod.Lex.right _ (Prod.Lex.left _ _ (by simp))

variable [DecidableEq α]

def isDone (s : Scan wildcard) : Bool := s.value.isEmpty && s.pattern.all (· = wildcard)

def run (s : Scan wildcard) : Bool :=
  match _h : s.next? with
  | some t => t.run
  | none => s.isDone
termination_by s.left
decreasing_by exact (_h ▸ s.next_next?).left_lt

end Scan

def matchesPattern [DecidableEq α] (wildcard : α) (pattern value : List α) : Bool :=
  (Scan.start wildcard pattern value).run

end ContractNegotiation.Query.Wildcard
