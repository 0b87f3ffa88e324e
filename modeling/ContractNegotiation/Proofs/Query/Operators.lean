import ContractNegotiation.Proofs.Query.Values
import ContractNegotiation.Proofs.Query.Wildcard
import ContractNegotiation.Proofs.Text

namespace ContractNegotiation.Query

open Text

structure Listable (v : String) : Prop where
  neat : Neat v.toList
  whole : ',' ∉ v.toList

inductive Enumerates : List String → List Char → Prop where
  | last (v : String) (cs : List Char) : Padded v.toList cs → Enumerates [v] cs
  | more (v : String) (vs : List String) (cs rest : List Char) : Padded v.toList cs →
      Enumerates vs rest → Enumerates (v :: vs) (cs ++ ',' :: rest)

def Lists (vs : List String) (operand : String) : Prop :=
  ∃ cs, Enumerates vs cs ∧ Padded ('(' :: cs ++ [')']) operand.toList

variable {v s path operand : String} {vs : List String} {cs : List Char} {e : Element}

theorem Listable.notMem (hv : Listable v) (h : Padded v.toList cs) : ',' ∉ cs := by
  intro hc
  rcases h.mem hc with hc | hc
  · exact hv.whole hc
  · revert hc
    decide

theorem Enumerates.pieces (h : Enumerates vs cs) (hvs : ∀ v ∈ vs, Listable v) :
    (Text.pieces ',' cs).map (fun piece => String.ofList (trim piece)) = vs := by
  induction h with
  | last v cs h =>
    have hv := hvs v List.mem_cons_self
    rw [pieces_of_notMem (hv.notMem h), List.map_singleton, h.trim_eq hv.neat, String.ofList_toList]
  | more v vs cs rest h _ ih =>
    have hv := hvs v List.mem_cons_self
    rw [pieces_append (hv.notMem h), List.map_cons, h.trim_eq hv.neat, String.ofList_toList,
      ih fun v hv => hvs v (List.mem_cons_of_mem _ hv)]

theorem Lists.alternatives (h : Lists vs operand) (hvs : ∀ v ∈ vs, Listable v) :
    Query.alternatives operand = vs := by
  obtain ⟨cs, hcs, hpadded⟩ := h
  have hfirst : ('(' :: cs ++ [')']).head? = some '(' := rfl
  have hlast : ('(' :: cs ++ [')']).getLast? = some ')' := List.getLast?_concat
  have hneat : Neat ('(' :: cs ++ [')']) := by
    rw [neat_iff, hfirst, hlast]
    decide
  have hends : ('(' :: cs ++ [')']).head? = some '(' ∧
      ('(' :: cs ++ [')']).getLast? = some ')' ∧ 2 ≤ ('(' :: cs ++ [')']).length :=
    ⟨hfirst, hlast, by simp⟩
  unfold Query.alternatives
  rw [hpadded.trim_eq hneat]
  dsimp only
  rw [if_pos hends, List.cons_append, List.drop_one, List.tail_cons, List.dropLast_concat]
  exact hcs.pieces hvs

theorem Wildcard.fits_literal {α : Type} {wildcard : α} {pattern value : List α}
    (h : wildcard ∉ pattern) : Fits wildcard pattern value ↔ value = pattern := by
  have hfits : Fits wildcard (pattern ++ []) value ↔
      ∃ rest, value = pattern ++ rest ∧ Fits wildcard [] rest := fits_append_iff h
  simpa [fits_nil_iff] using hfits

namespace Criterion

theorem accepts_among_iff :
    (Criterion.mk path "in" operand).Accepts s ↔ s ∈ alternatives operand := by
  have hop : Operator.ofText? "in" = some .among := by decide
  simp [Accepts, holdsOf, hop]

theorem accepts_like_iff : (Criterion.mk path "like" operand).Accepts s ↔
    Wildcard.Fits '%' operand.toList s.toList := by
  have hop : Operator.ofText? "like" = some .like := by decide
  simp only [Accepts, holdsOf, hop, List.any_cons, List.any_nil, Bool.or_false]
  rw [Wildcard.matchesPattern, Wildcard.Scan.run_iff, Wildcard.Scan.viable_start]

theorem holds_equal_iff (hpath : path ≠ "") :
    (Criterion.mk path "=" v).holds e = true ↔ e.Shows v (segments path) := by
  simp only [holds_iff (c := ⟨path, "=", v⟩) (by simp) hpath, accepts_equal_iff,
    exists_eq_right]

/-- Of one message and path, an inequality holds when the equality does not, a list when one of its
values is equal, and a pattern without wildcards when it is equal itself. -/
theorem operators_agree (e : Element) (path : String) (hpath : path ≠ "") :
    (∀ v, (Criterion.mk path "!=" v).holds e = !(Criterion.mk path "=" v).holds e) ∧
    (∀ vs operand, (∀ v ∈ vs, Listable v) → Lists vs operand →
      ((Criterion.mk path "in" operand).holds e = true ↔
        ∃ v ∈ vs, (Criterion.mk path "=" v).holds e = true)) ∧
    ∀ pattern : String, '%' ∉ pattern.toList →
      (Criterion.mk path "like" pattern).holds e = (Criterion.mk path "=" pattern).holds e := by
  refine ⟨fun v => ?_, fun vs operand hvs hlists => ?_, fun pattern hpattern => ?_⟩
  · rw [Bool.eq_iff_iff, Bool.not_eq_true', ← Bool.not_eq_true, holds_equal_iff hpath,
      holds_unequal_iff rfl hpath]
  · rw [holds_iff (by simp) hpath]
    simp only [holds_equal_iff hpath, accepts_among_iff, hlists.alternatives hvs]
    exact exists_congr fun v => and_comm
  · rw [Bool.eq_iff_iff, holds_equal_iff hpath, holds_iff (by simp) hpath]
    simp only [accepts_like_iff, Wildcard.fits_literal hpattern, String.toList_inj,
      exists_eq_right]

theorem operators_agree_of_parentheses :
    Lists ["", "(a", "b)"] "( , (a,\tb)) " ∧
    (Criterion.mk "assetId" "in" "( , (a,\tb)) ").holds (.ofOffer { assetId := "b)" }) = true ∧
    (Criterion.mk "assetId" "!=" "b)").holds (.ofOffer { assetId := "b)" }) = false ∧
    (Criterion.mk "assetId" "like" "b)").holds (.ofOffer { assetId := "b)" }) = true := by
  have hlists : Lists ["", "(a", "b)"] "( , (a,\tb)) " :=
    ⟨" , (a,\tb)".toList,
      .more "" _ [' '] _ (padded_of_all [] [' '] rfl rfl (by decide)) <|
      .more "(a" _ [' ', '(', 'a'] _ (padded_of_all [' '] [] rfl rfl (by decide)) <|
      .last "b)" _ (padded_of_all ['\t'] [] rfl rfl (by decide)),
      padded_of_all [] [' '] rfl rfl (by decide)⟩
  have hlistable : ∀ v ∈ ["", "(a", "b)"], Listable v := by
    simp only [List.forall_mem_cons, List.not_mem_nil, false_imp_iff, implies_true, and_true]
    exact ⟨⟨by decide, by decide⟩, ⟨by decide, by decide⟩, ⟨by decide, by decide⟩⟩
  have hequal : (Criterion.mk "assetId" "=" "b)").holds (.ofOffer { assetId := "b)" }) = true := by
    decide
  obtain ⟨hunequal, hamong, hlike⟩ :=
    operators_agree (.ofOffer { assetId := "b)" }) "assetId" (by decide)
  refine ⟨hlists, (hamong _ _ hlistable hlists).mpr ⟨"b)", by simp, hequal⟩, ?_, ?_⟩
  · rw [hunequal, hequal]
    rfl
  · rw [hlike "b)" (by decide), hequal]

end Criterion

end ContractNegotiation.Query
