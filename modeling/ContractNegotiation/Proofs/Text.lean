import ContractNegotiation.Text
import Mathlib.Data.List.Basic
import Mathlib.Data.List.Infix
import Mathlib.Data.List.TakeWhile
import Mathlib.Tactic.Common

namespace ContractNegotiation.Text

structure Neat (cs : List Char) : Prop where
  first : ∀ c ∈ cs.head?, isBlank c = false
  last : ∀ c ∈ cs.getLast?, isBlank c = false

theorem neat_iff (cs : List Char) : Neat cs ↔ (cs.head?.all fun c => !isBlank c) = true ∧
    (cs.getLast?.all fun c => !isBlank c) = true := by
  simp only [Option.all_eq_true, Bool.not_eq_true']
  exact ⟨fun h => ⟨h.first, h.last⟩, fun h => ⟨h.1, h.2⟩⟩

instance (cs : List Char) : Decidable (Neat cs) := decidable_of_iff _ (neat_iff cs).symm

def Padded (body cs : List Char) : Prop :=
  ∃ before after, (∀ c ∈ before, isBlank c = true) ∧ (∀ c ∈ after, isBlank c = true) ∧
    cs = before ++ body ++ after

variable {cs body before after : List Char}

theorem padded_of_all (before after : List Char) (hbefore : before.all isBlank = true)
    (hafter : after.all isBlank = true) (h : cs = before ++ body ++ after) : Padded body cs :=
  ⟨before, after, List.all_eq_true.mp hbefore, List.all_eq_true.mp hafter, h⟩

theorem blankless_of_all (h : (cs.all fun c => !isBlank c) = true) :
    ∀ c ∈ cs, isBlank c = false := by
  simpa using h

theorem neat_of_blankless (h : ∀ c ∈ cs, isBlank c = false) : Neat cs :=
  ⟨fun c hc => h c (List.mem_of_head? hc), fun c hc => h c (List.mem_of_getLast? hc)⟩

theorem Neat.around {first last : List Char} (hfirst : Neat first) (hne : first ≠ [])
    (hlast : Neat last) (hne' : last ≠ []) (between : List Char) :
    Neat (first ++ between ++ last) := by
  constructor
  · intro c hc
    rw [List.append_assoc, List.head?_append_of_ne_nil _ hne] at hc
    exact hfirst.first c hc
  · intro c hc
    rw [List.getLast?_append_of_ne_nil _ hne'] at hc
    exact hlast.last c hc

theorem dropWhile_of_head {p : Char → Bool} (h : ∀ c ∈ cs.head?, p c = false) :
    cs.dropWhile p = cs := by
  cases cs with
  | nil => rfl
  | cons c cs => exact List.dropWhile_cons_of_neg (by simp [h c rfl])

theorem trim_of_neat (h : Neat cs) : trim cs = cs := by
  unfold trim
  rw [dropWhile_of_head h.first, dropWhile_of_head (by simpa using h.last), List.reverse_reverse]

theorem trim_append_left (h : ∀ c ∈ before, isBlank c = true) : trim (before ++ cs) = trim cs := by
  unfold trim
  rw [List.dropWhile_append_of_pos h]

theorem trim_append_right (h : ∀ c ∈ after, isBlank c = true) : trim (cs ++ after) = trim cs := by
  unfold trim
  rw [List.dropWhile_append]
  split
  · rename_i hempty
    have hcs : cs.dropWhile isBlank = [] := by simpa using hempty
    rw [hcs, List.dropWhile_eq_nil_iff.mpr h]
  · rw [List.reverse_append, List.dropWhile_append_of_pos (by simpa using h)]

theorem Padded.trim_eq (h : Padded body cs) (hbody : Neat body) : trim cs = body := by
  obtain ⟨before, after, hbefore, hafter, rfl⟩ := h
  rw [trim_append_right hafter, trim_append_left hbefore, trim_of_neat hbody]

theorem Padded.mem {c : Char} (h : Padded body cs) (hc : c ∈ cs) : c ∈ body ∨ isBlank c = true := by
  obtain ⟨before, after, hbefore, hafter, rfl⟩ := h
  rcases List.mem_append.mp hc with hc | hc
  · rcases List.mem_append.mp hc with hc | hc
    · exact .inr (hbefore c hc)
    · exact .inl hc
  · exact .inr (hafter c hc)

theorem toLower_of_isBlank {c : Char} (h : isBlank c = true) : c.toLower = c := by
  have hlow : ¬ (c.val ≥ 'A'.val ∧ c.val ≤ 'Z'.val) := by
    rintro ⟨hc, -⟩
    simp only [isBlank, Bool.or_eq_true, Bool.and_eq_true, decide_eq_true_eq] at h
    rcases h with rfl | ⟨-, h⟩
    · revert hc
      decide
    · have hA : ('A').val ≤ ('\r').val := UInt32.le_trans hc h
      revert hA
      decide
  exact dif_neg hlow

section Pieces

variable {α : Type} [DecidableEq α] {separator : α} {piece : List α}

theorem pieces_of_notMem (h : separator ∉ piece) : pieces separator piece = [piece] := by
  induction piece with
  | nil => rfl
  | cons c piece ih =>
    obtain ⟨hc, hpiece⟩ := not_or.mp (mt List.mem_cons.mpr h)
    rw [pieces, if_neg (Ne.symm hc), ih hpiece]

theorem pieces_append (h : separator ∉ piece) (rest : List α) :
    pieces separator (piece ++ separator :: rest) = piece :: pieces separator rest := by
  induction piece with
  | nil => simp [pieces]
  | cons c piece ih =>
    obtain ⟨hc, hpiece⟩ := not_or.mp (mt List.mem_cons.mpr h)
    rw [List.cons_append, pieces, if_neg (Ne.symm hc), ih hpiece]

end Pieces

variable {m : Char} {mark : List Char}

theorem cutAt?_append (h : m ∉ before) (cs : List Char) : cutAt? (m :: mark) (before ++ cs) =
    (cutAt? (m :: mark) cs).map fun cut => (before ++ cut.1, cut.2) := by
  induction before with
  | nil => simp
  | cons c before ih =>
    obtain ⟨hc, hbefore⟩ := not_or.mp (mt List.mem_cons.mpr h)
    have hprefix : ¬ (m :: mark).isPrefixOf (c :: (before ++ cs)) = true :=
      fun hp => hc (List.cons_prefix_cons.mp (List.isPrefixOf_iff_prefix.mp hp)).1
    rw [List.cons_append, cutAt?, if_neg hprefix, ih hbefore, Option.map_map]
    rfl

theorem cutAt?_of_notMem (h : m ∉ before) (after : List Char) :
    cutAt? (m :: mark) (before ++ (m :: mark ++ after)) = some (before, after) := by
  rw [cutAt?_append h]
  simp [cutAt?]

theorem cutAt?_eq_none_iff (hmark : mark ≠ []) : cutAt? mark cs = none ↔ ¬ mark <:+: cs := by
  induction cs with
  | nil => simp [cutAt?, hmark]
  | cons c cs ih =>
    rw [cutAt?, List.infix_cons_iff, not_or, ← ih, ← List.isPrefixOf_iff_prefix]
    split
    · simp [*]
    · simp [*]

theorem notMem_of_cutAt? (h : cutAt? [m] cs = some (before, after)) :
    cs = before ++ m :: after ∧ m ∉ before := by
  have hmem : m ∈ cs := by
    have hsome : cutAt? [m] cs ≠ none := by simp [h]
    rw [ne_eq, cutAt?_eq_none_iff (List.cons_ne_nil _ _), not_not] at hsome
    exact hsome.subset List.mem_cons_self
  obtain ⟨first, rest, rfl, hfirst⟩ := List.eq_append_cons_of_mem hmem
  have hcut : cutAt? [m] (first ++ m :: rest) = some (first, rest) :=
    cutAt?_of_notMem hfirst rest
  obtain ⟨rfl, rfl⟩ := Prod.mk.inj (Option.some.inj (hcut.symm.trans h))
  exact ⟨rfl, hfirst⟩

theorem padded_trim (cs : List Char) : Padded (trim cs) cs := by
  refine ⟨cs.takeWhile isBlank, ((cs.dropWhile isBlank).reverse.takeWhile isBlank).reverse,
    fun c hc => List.mem_takeWhile_imp hc,
    fun c hc => List.mem_takeWhile_imp (List.mem_reverse.mp hc), ?_⟩
  unfold trim
  rw [List.append_assoc, ← List.reverse_append, List.takeWhile_append_dropWhile,
    List.reverse_reverse, List.takeWhile_append_dropWhile]

end ContractNegotiation.Text
