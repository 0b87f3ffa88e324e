import ContractNegotiation.Query.Wildcard
import Mathlib.Data.List.Infix
import Mathlib.Logic.Relation

/-! A scan finds out whether a pattern fits a value. Only the last wildcard is ever tried again:
what an earlier one could stand for is no loss, since whatever fits behind a longer run of it is
also within reach of the wildcard after it. -/

namespace ContractNegotiation.Query.Wildcard

variable {α : Type} {wildcard c : α} {pattern value run : List α}

inductive Fits (wildcard : α) : List α → List α → Prop where
  | nil : Fits wildcard [] []
  | literal (c : α) (pattern value : List α) : c ≠ wildcard → Fits wildcard pattern value →
      Fits wildcard (c :: pattern) (c :: value)
  | filled (run pattern value : List α) : Fits wildcard pattern value →
      Fits wildcard (wildcard :: pattern) (run ++ value)

theorem fits_nil_iff : Fits wildcard [] value ↔ value = [] := by
  constructor
  · rintro ⟨⟩
    rfl
  · rintro rfl
    exact .nil

theorem fits_literal_iff (hc : c ≠ wildcard) : Fits wildcard (c :: pattern) value ↔
    ∃ rest, value = c :: rest ∧ Fits wildcard pattern rest := by
  constructor
  · intro h
    cases h with
    | literal _ _ rest _ h => exact ⟨rest, rfl, h⟩
    | filled => exact absurd rfl hc
  · rintro ⟨rest, rfl, h⟩
    exact .literal c pattern rest hc h

theorem fits_wildcard_iff : Fits wildcard (wildcard :: pattern) value ↔
    ∃ run rest, value = run ++ rest ∧ Fits wildcard pattern rest := by
  constructor
  · intro h
    cases h with
    | literal _ _ _ hc => exact absurd rfl hc
    | filled run _ rest h => exact ⟨run, rest, rfl, h⟩
  · rintro ⟨run, rest, rfl, h⟩
    exact .filled run pattern rest h

theorem fits_append_iff (hrun : wildcard ∉ run) :
    Fits wildcard (run ++ pattern) value ↔
      ∃ rest, value = run ++ rest ∧ Fits wildcard pattern rest := by
  induction run generalizing value with
  | nil => simp
  | cons c run ih =>
    obtain ⟨hc, hrun⟩ := not_or.mp (mt List.mem_cons.mpr hrun)
    simp only [List.cons_append, fits_literal_iff (Ne.symm hc), ih hrun]
    constructor
    · rintro ⟨_, rfl, rest, rfl, h⟩
      exact ⟨rest, rfl, h⟩
    · rintro ⟨rest, rfl, h⟩
      exact ⟨_, rfl, rest, rfl, h⟩

theorem fits_end_iff : Fits wildcard pattern [] ↔ ∀ c ∈ pattern, c = wildcard := by
  induction pattern with
  | nil => simp [fits_nil_iff]
  | cons c pattern ih =>
    by_cases hc : c = wildcard
    · subst hc
      simp only [fits_wildcard_iff, List.nil_eq, List.append_eq_nil_iff, List.forall_mem_cons,
        true_and, ← ih]
      constructor
      · rintro ⟨_, _, ⟨rfl, rfl⟩, h⟩
        exact h
      · exact fun h => ⟨[], [], ⟨rfl, rfl⟩, h⟩
    · simp [fits_literal_iff hc, hc]

theorem Fits.extend {longer : List α} (h : Fits wildcard (wildcard :: pattern) value)
    (hs : value <:+ longer) : Fits wildcard (wildcard :: pattern) longer := by
  obtain ⟨more, rfl⟩ := hs
  obtain ⟨run, rest, rfl, hrest⟩ := fits_wildcard_iff.mp h
  rw [← List.append_assoc]
  exact .filled _ pattern rest hrest

theorem suffix_iff_eq_or_tail {rest : List α} :
    rest <:+ value ↔ rest = value ∨ rest <:+ value.tail := by
  cases value with
  | nil => simp
  | cons x value => exact List.suffix_cons_iff

namespace Scan

variable {s t : Scan wildcard}

/-- The scan may still succeed: from where it is, or with a longer run of the last wildcard. -/
def Viable (s : Scan wildcard) : Prop :=
  Fits wildcard s.pattern s.value ∨
    ∃ r ∈ s.resume, ∃ rest, rest <:+ r.2.tail ∧ Fits wildcard r.1 rest

theorem viable_start : (start wildcard pattern value).Viable ↔ Fits wildcard pattern value := by
  simp [Viable, start]

theorem viable_behind : (behind wildcard pattern value).Viable ↔
    ∃ rest, rest <:+ value ∧ Fits wildcard pattern rest := by
  constructor
  · rintro (h | ⟨_, ⟨rfl⟩, rest, hrest, h⟩)
    · exact ⟨value, List.suffix_refl value, h⟩
    · exact ⟨rest, suffix_iff_eq_or_tail.mpr (.inr hrest), h⟩
  · rintro ⟨rest, hrest, h⟩
    rcases suffix_iff_eq_or_tail.mp hrest with rfl | hrest
    · exact .inl h
    · exact .inr ⟨_, rfl, rest, hrest, h⟩

theorem Mismatch.viable_iff (h : s.Mismatch) :
    s.Viable ↔ ∃ r ∈ s.resume, ∃ rest, rest <:+ r.2.tail ∧ Fits wildcard r.1 rest := by
  refine or_iff_right fun hfits => ?_
  cases hp : s.pattern with
  | nil => exact h.value (fits_nil_iff.mp (hp ▸ hfits))
  | cons c pattern =>
    obtain ⟨hc, hvalue⟩ := h.pattern c pattern hp
    obtain ⟨rest, hrest, -⟩ := (fits_literal_iff hc).mp (hp ▸ hfits)
    exact hvalue rest hrest

/-- What a longer run of an earlier wildcard leaves for the next one is a part of what that one has
before it anyway. This is why the earlier one need not be tried again. -/
theorem viable_of_meet (hp : s.pattern = wildcard :: pattern) :
    s.Viable ↔ Fits wildcard (wildcard :: pattern) s.value := by
  refine ⟨?_, fun h => .inl (hp ▸ h)⟩
  rintro (h | ⟨r, hr, rest, hrest, h⟩)
  · exact hp ▸ h
  obtain ⟨run, hrun, hpattern, hvalue⟩ := s.passed r hr
  rw [hpattern, hp, fits_append_iff hrun] at h
  obtain ⟨others, rfl, hothers⟩ := h
  apply hothers.extend
  have hlength : (run ++ others).length ≤ (run ++ s.value).length := by
    rw [← hvalue]
    exact (hrest.trans (List.tail_suffix _)).length_le
  have hsuffix : others <:+ run ++ s.value := by
    rw [← hvalue]
    exact (List.suffix_append run others).trans (hrest.trans (List.tail_suffix _))
  refine List.suffix_of_suffix_length_le hsuffix (List.suffix_append run s.value) ?_
  simpa using hlength

theorem viable_of_ended (hv : s.value = []) : s.Viable ↔ Fits wildcard s.pattern [] := by
  refine ⟨?_, fun h => .inl (hv ▸ h)⟩
  rintro (h | ⟨r, hr, rest, hrest, h⟩)
  · exact hv ▸ h
  obtain ⟨run, hrun, hpattern, hvalue⟩ := s.passed r hr
  rw [hpattern, fits_append_iff hrun] at h
  obtain ⟨others, rfl, hothers⟩ := h
  have hlength := hrest.length_le
  rw [hvalue, hv, List.append_nil, List.length_tail, List.length_append] at hlength
  obtain rfl : others = [] := List.eq_nil_of_length_eq_zero (by omega)
  exact hothers

theorem Next.viable_iff (h : s.Next (some t)) : t.Viable ↔ s.Viable := by
  cases h with
  | meet pattern hp hv =>
    rw [viable_of_meet hp, viable_behind, fits_wildcard_iff]
    constructor
    · rintro ⟨rest, ⟨run, hrun⟩, h⟩
      exact ⟨run, rest, hrun.symm, h⟩
    · rintro ⟨run, rest, hrun, h⟩
      exact ⟨rest, ⟨run, hrun.symm⟩, h⟩
  | pass c pattern value hp hv hc =>
    have hfits : Fits wildcard s.pattern s.value ↔ Fits wildcard pattern value := by
      rw [hp, hv, fits_literal_iff hc]
      simp
    exact or_congr_left hfits.symm
  | extend _ hm hextend =>
    obtain ⟨pattern, x, value, hr, rfl⟩ := extend?_eq_some hextend
    rw [hm.viable_iff, viable_behind, hr]
    simp

theorem resume_of_extend? (hv : s.value ≠ []) (h : s.extend? = none) : s.resume = none := by
  cases hr : s.resume with
  | none => rfl
  | some r =>
    obtain ⟨pattern, value⟩ := r
    obtain ⟨run, -, -, hvalue⟩ := s.passed _ hr
    cases value with
    | nil => exact absurd (List.append_eq_nil_iff.mp hvalue.symm).2 hv
    | cons x value => simp [extend?, hr] at h

variable [DecidableEq α]

theorem isDone_iff (h : s.next? = none) : s.isDone = true ↔ s.Viable := by
  have hnext : s.Next none := h ▸ s.next_next?
  cases hnext with
  | ended hv => simp [isDone, viable_of_ended hv, fits_end_iff, hv]
  | extend _ hm hextend =>
    have hresume : s.resume = none := resume_of_extend? hm.value hextend
    simp [isDone, hm.viable_iff, hresume, hm.value]

theorem run_iff (s : Scan wildcard) : s.run = true ↔ s.Viable := by
  induction s using run.induct with
  | case1 s t h ih =>
    have hnext : s.Next (some t) := h ▸ s.next_next?
    rw [run, h, ← hnext.viable_iff]
    exact ih
  | case2 s h =>
    rw [run, h]
    exact isDone_iff h

theorem run_ends (s : Scan wildcard) :
    ∃ t, Relation.ReflTransGen (fun s t => s.next? = some t) s t ∧ t.next? = none ∧
      s.run = t.isDone := by
  induction s using run.induct with
  | case1 s t h ih =>
    obtain ⟨u, hreach, hend, hrun⟩ := ih
    exact ⟨u, .head h hreach, hend, by rw [run, h]; exact hrun⟩
  | case2 s h => exact ⟨s, .refl, h, by rw [run, h]⟩

end Scan

theorem fits_pieces_iff {pieces : List (List α)} (h : ∀ piece ∈ pieces, wildcard ∉ piece) :
    Fits wildcard (pieces.map (wildcard :: ·)).flatten value ↔
      ∃ fillers : List (List α), fillers.length = pieces.length ∧
        value = (List.zipWith (· ++ ·) fillers pieces).flatten := by
  induction pieces generalizing value with
  | nil => simp [fits_nil_iff]
  | cons piece pieces ih =>
    obtain ⟨hpiece, hpieces⟩ := List.forall_mem_cons.mp h
    simp only [List.map_cons, List.flatten_cons, List.cons_append, fits_wildcard_iff,
      fits_append_iff hpiece, ih hpieces]
    constructor
    · rintro ⟨filler, _, rfl, _, rfl, fillers, hlength, rfl⟩
      exact ⟨filler :: fillers, by simp [hlength], by simp⟩
    · rintro ⟨fillers, hlength, rfl⟩
      cases fillers with
      | nil => cases hlength
      | cons filler fillers =>
        exact ⟨filler, _, by simp, _, rfl, fillers, Nat.succ.inj hlength, rfl⟩

/-- A pattern, split at its wildcards, matches the values that come of filling in any symbols
between its pieces, and the scan that finds this out comes to its end for every pattern and
value. -/
theorem matchesPattern_iff_filled [DecidableEq α] (wildcard : α) (pattern value : List α) :
    ∃ first rest, pattern = first ++ (rest.map (wildcard :: ·)).flatten ∧
      (∀ piece ∈ first :: rest, wildcard ∉ piece) ∧
      (matchesPattern wildcard pattern value = true ↔
        ∃ fillers : List (List α), fillers.length = rest.length ∧
          value = first ++ (List.zipWith (· ++ ·) fillers rest).flatten) ∧
      ∃ last, Relation.ReflTransGen (fun s t : Scan wildcard => s.next? = some t)
          (.start wildcard pattern value) last ∧
        last.next? = none ∧ matchesPattern wildcard pattern value = last.isDone := by
  obtain ⟨first, rest, hpieces, hjoin⟩ := Text.pieces_join wildcard pattern
  have hfree (piece : List α) (h : piece ∈ first :: rest) : wildcard ∉ piece :=
    Text.notMem_of_mem_pieces (hpieces ▸ h)
  obtain ⟨hfirst, hrest⟩ := List.forall_mem_cons.mp hfree
  refine ⟨first, rest, hjoin, hfree, ?_, Scan.run_ends _⟩
  rw [matchesPattern, Scan.run_iff, Scan.viable_start, hjoin, fits_append_iff hfirst]
  simp only [fits_pieces_iff hrest]
  constructor
  · rintro ⟨_, rfl, fillers, hlength, rfl⟩
    exact ⟨fillers, hlength, rfl⟩
  · rintro ⟨fillers, hlength, rfl⟩
    exact ⟨_, rfl, fillers, hlength, rfl⟩

end ContractNegotiation.Query.Wildcard
