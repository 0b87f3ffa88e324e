import ContractNegotiation.Proofs.Binary64.Numeral
import ContractNegotiation.Settings.Document

namespace ContractNegotiation

inductive Branch where
  | item (i : Nat)
  | entry (key : String)

def Node.at? : Node → List Branch → Option Node
  | node, [] => some node
  | .list items, .item i :: position => items[i]?.bind (·.at? position)
  | .map entries, .entry key :: position => (entries.lookup key).bind (·.at? position)
  | _, _ :: _ => none

def Value.at? : Value → List Branch → Option Value
  | v, [] => some v
  | .list items, .item i :: position => items[i]?.bind (·.at? position)
  | .fields entries, .entry key :: position => (entries.lookup key).bind (·.at? position)
  | _, _ :: _ => none

namespace Node

inductive Distinct : Node → Prop
  | null : Distinct .null
  | scalar (text tag : String) : Distinct (.scalar text tag)
  | list {items : List Node} (hitems : ∀ item ∈ items, Distinct item) : Distinct (.list items)
  | map {entries : List (String × Node)} (hkeys : (entries.map Prod.fst).Nodup)
      (hentries : ∀ entry ∈ entries, Distinct entry.2) : Distinct (.map entries)
  | broken (reason : String) : Distinct (.broken reason)

section Trees

variable {entries : List (String × Node)} {before : List (String × Value)} {key : String}
  {v : Value}

theorem itemValues_eq (items : List Node) :
    itemValues items = items.map fun item => overwrite item .null := by
  induction items with
  | nil => rfl
  | cons item items ih => rw [itemValues, ih, List.map_cons]

theorem entryOf_of_notMem (h : key ∉ before.map Prod.fst) : entryOf before key = .null := by
  have hlookup : before.lookup key = none := by
    refine List.lookup_eq_none_iff.mpr fun entry hentry => bne_iff_ne.mpr ?_
    rintro rfl
    exact h (List.mem_map_of_mem hentry)
  rw [entryOf, hlookup, Option.getD_none]

theorem setEntry_of_notMem (h : key ∉ before.map Prod.fst) :
    setEntry key v before = before ++ [(key, v)] := by
  induction before with
  | nil => rfl
  | cons entry before ih =>
    simp only [List.map_cons, List.mem_cons, not_or] at h
    rw [setEntry, if_neg (Ne.symm h.1), ih h.2, List.cons_append]

theorem mergeEntries_of_disjoint (hkeys : (entries.map Prod.fst).Nodup)
    (h : ∀ key ∈ entries.map Prod.fst, key ∉ before.map Prod.fst) : mergeEntries entries before =
      before ++ entries.map fun entry => (entry.1, overwrite entry.2 .null) := by
  induction entries generalizing before with
  | nil => simp [mergeEntries]
  | cons entry entries ih =>
    obtain ⟨key, node⟩ := entry
    simp only [List.map_cons, List.nodup_cons, List.mem_cons, forall_eq_or_imp] at hkeys h
    rw [mergeEntries, entryOf_of_notMem h.1, setEntry_of_notMem h.1, ih hkeys.2]
    · simp
    · intro other hother
      simp only [List.map_append, List.map_cons, List.map_nil, List.mem_append, List.mem_singleton]
      rintro (hmem | rfl)
      · exact h.2 other hother hmem
      · exact hkeys.1 hother

theorem lookup_map_snd {α β : Type} (f : α → β) (entries : List (String × α)) (key : String) :
    (entries.map fun entry => (entry.1, f entry.2)).lookup key = (entries.lookup key).map f := by
  induction entries with
  | nil => rfl
  | cons entry entries ih =>
    rw [List.map_cons, List.lookup_cons, List.lookup_cons, ih]
    split
    · rfl
    · rfl

theorem scalarValue_ne_null (text tag : String) : scalarValue text tag ≠ .null := by
  unfold scalarValue
  split_ifs
  case neg => split <;> nofun
  all_goals nofun

theorem eq_null_of_at? {position : List Branch} (h : Value.null.at? position = some v) :
    v = .null := by
  cases position with
  | nil => exact (Option.some.inj h).symm
  | cons branch position => cases branch <;> cases h

theorem at?_scalarValue (text tag : String) (branch : Branch) (position : List Branch) :
    (scalarValue text tag).at? (branch :: position) = none := by
  unfold scalarValue
  split_ifs
  case neg => split <;> simp [Value.at?]
  all_goals simp [Value.at?]

theorem Distinct.at?_overwrite {node : Node} (h : node.Distinct) (position : List Branch) :
    (overwrite node .null).at? position = (node.at? position).map (overwrite · .null) := by
  induction position generalizing node with
  | nil => simp [Node.at?, Value.at?]
  | cons branch position ih =>
    cases h with
    | null => cases branch <;> rfl
    | scalar text tag =>
      rw [overwrite, at?_scalarValue]
      cases branch <;> rfl
    | broken reason => cases branch <;> rfl
    | @list items hitems =>
      cases branch with
      | entry key => rfl
      | item i =>
        simp only [overwrite, itemValues_eq, Node.at?, Value.at?, List.getElem?_map]
        cases hitem : items[i]? with
        | none => rfl
        | some item => exact ih (hitems item (List.mem_of_getElem? hitem))
    | @map entries hkeys hentries =>
      cases branch with
      | item i => rfl
      | entry key =>
        have hmerge : mergeEntries entries [] = _ := mergeEntries_of_disjoint hkeys (by simp)
        simp only [overwrite, hmerge, Node.at?, Value.at?, List.nil_append,
          lookup_map_snd fun node => overwrite node .null]
        cases hentry : entries.lookup key with
        | none => rfl
        | some node =>
          obtain ⟨_, _, rfl, -⟩ := List.lookup_eq_some_iff.mp hentry
          exact ih (hentries (key, node) (by simp))

end Trees

section Scalars

variable {text tag : String} {x : Binary64}

theorem number?_iff (h : '\x00' ∉ text.toList) :
    number? text = some x ↔ Binary64.Numeral text.toList x := by
  have hseen : (Text.terminated text).toList = text.toList := by
    rw [Text.terminated, String.toList_ofList, List.takeWhile_eq_self_iff]
    intro c hc
    simpa using fun heq : c = '\x00' => h (heq ▸ hc)
  rw [← Binary64.ofText?_iff]
  unfold number?
  by_cases hempty : text = ""
  · subst hempty
    simp [show Binary64.ofText? [] = none from rfl]
  · have hne : text.toList ≠ [] := fun hnil => hempty (String.toList_eq_nil_iff.mp hnil)
    simp only [hseen, hempty, hne, if_false]

def truthWord (b : Bool) : String := if b then "true" else "false"

theorem scalarValue_truthWord (b : Bool) (tag : String) :
    scalarValue (truthWord b) tag = .bool b := by
  cases b <;> rfl

theorem scalarValue_of_ne (h : ∀ b, text ≠ truthWord b) (tag : String) : scalarValue text tag =
    if tag = "!" then .text text else (number? text).elim (.text text) .number := by
  have htrue : text ≠ "true" := h true
  have hfalse : text ≠ "false" := h false
  rw [scalarValue, if_neg htrue, if_neg hfalse]
  cases number? text <;> rfl

theorem not_numeral_truthWord (b : Bool) (x : Binary64) :
    ¬ Binary64.Numeral (truthWord b).toList x := by
  have hnone : Binary64.ofText? (truthWord b).toList = none := by
    revert b
    decide
  rw [← Binary64.ofText?_iff, hnone]
  nofun

/-- What a scalar of a text and a tag stands for. A truth value is one in quotes, too. -/
structure Typed (text tag : String) (v : Value) : Prop where
  quoted : tag = "!" →
    (∀ b, v = .bool b ↔ text = truthWord b) ∧
    (∀ s, v = .text s ↔ (∀ b, text ≠ truthWord b) ∧ s = text)
  plain : tag = "?" → '\x00' ∉ text.toList →
    (∀ b, v = .bool b ↔ text = truthWord b) ∧
    (∀ x, v = .number x ↔ Binary64.Numeral text.toList x) ∧
    (∀ s, v = .text s ↔ (∀ b, text ≠ truthWord b) ∧ (∀ x, ¬ Binary64.Numeral text.toList x) ∧
      s = text)

theorem typed_truthWord (b : Bool) (tag : String) : Typed (truthWord b) tag (.bool b) := by
  have hword : ∀ b', Value.bool b = .bool b' ↔ truthWord b = truthWord b' := by
    revert b
    decide
  have htext : ¬ ∀ b', truthWord b ≠ truthWord b' := fun h => h b rfl
  refine ⟨fun _ => ⟨hword, ?_⟩, fun _ _ => ⟨hword, ?_, ?_⟩⟩
  · simp only [reduceCtorEq, htext, false_and, implies_true]
  · simp only [reduceCtorEq, not_numeral_truthWord, implies_true]
  · simp only [reduceCtorEq, htext, false_and, implies_true]

theorem typed_scalarValue (text tag : String) : Typed text tag (scalarValue text tag) := by
  by_cases htruth : ∃ b, text = truthWord b
  · obtain ⟨b, rfl⟩ := htruth
    rw [scalarValue_truthWord]
    exact typed_truthWord b tag
  · have hne : ∀ b, text ≠ truthWord b := not_exists.mp htruth
    rw [scalarValue_of_ne hne]
    constructor
    · rintro rfl
      simp [hne, eq_comm]
    · rintro rfl hnul
      simp only [← number?_iff hnul]
      cases number? text with
      | none => simp [hne, eq_comm]
      | some x => simp [hne]

end Scalars

theorem document_of_ne_null {node : Node} (h : overwrite node .null ≠ .null) :
    node.document = overwrite node .null := by
  unfold document
  split
  · exact absurd ‹_› h
  · rfl

/-- Every scalar of a tree without repeated keys is typed by its text and its tag alone, wherever it
stands. -/
theorem scalars_typed {node : Node} (hdistinct : node.Distinct) {position : List Branch}
    {text tag : String} (h : node.at? position = some (.scalar text tag)) :
    ∃ v, node.document.at? position = some v ∧ Typed text tag v := by
  have hat : (overwrite node .null).at? position = some (scalarValue text tag) := by
    rw [hdistinct.at?_overwrite, h, Option.map_some, overwrite]
  have hnull : overwrite node .null ≠ .null := by
    intro hnull
    rw [hnull] at hat
    exact scalarValue_ne_null text tag (eq_null_of_at? hat)
  rw [document_of_ne_null hnull]
  exact ⟨_, hat, typed_scalarValue text tag⟩

theorem scalars_typed_of_nested : ∃ node : Node, node.Distinct ∧
    node.document.at? [.entry "name"] = some (.text "42") ∧
    node.document.at? [.entry "ratios", .item 1] = some (.number ⟨0x4020000000000000⟩) := by
  let node : Node :=
    .map [("name", .scalar "42" "!"), ("ratios", .list [.scalar "1e" "?", .scalar "0x1p+3" "?"])]
  have hdistinct : node.Distinct := by
    refine .map (by decide) ?_
    simp only [List.mem_cons, List.not_mem_nil, or_false, forall_eq_or_imp, forall_eq]
    refine ⟨.scalar _ _, .list ?_⟩
    simp only [List.mem_cons, List.not_mem_nil, or_false, forall_eq_or_imp, forall_eq]
    exact ⟨.scalar _ _, .scalar _ _⟩
  refine ⟨node, hdistinct, ?_, ?_⟩
  · obtain ⟨v, hv, htyped⟩ := scalars_typed hdistinct
      (show node.at? [.entry "name"] = some (.scalar "42" "!") by rfl)
    rw [hv, ((htyped.quoted rfl).2 "42").mpr ⟨by decide, rfl⟩]
  · obtain ⟨v, hv, htyped⟩ := scalars_typed hdistinct
      (show node.at? [.entry "ratios", .item 1] = some (.scalar "0x1p+3" "?") by rfl)
    have hnumeral : Binary64.ofText? "0x1p+3".toList = some ⟨0x4020000000000000⟩ := by decide
    rw [hv, ((htyped.plain rfl (by decide)).2.1 _).mpr (Binary64.ofText?_iff.mp hnumeral)]

/-- A text in quotes is lost if it is a truth value. -/
theorem quoted_truth_lost : ∃ (node : Node) (position : List Branch) (text : String),
    node.Distinct ∧ node.at? position = some (.scalar text "!") ∧
      node.document.at? position ≠ some (.text text) := by
  refine ⟨.scalar "true" "!", [], "true", .scalar _ _, rfl, ?_⟩
  have hvalue : (Node.scalar "true" "!").document = .bool true := rfl
  rw [hvalue]
  nofun

end Node

end ContractNegotiation
