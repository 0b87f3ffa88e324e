import ContractNegotiation.Query.Root
import Mathlib.Data.List.Basic
import Mathlib.Tactic.Common

namespace ContractNegotiation

theorem mem_of_lookup {α : Type} {name : String} {entries : List (String × α)} {x : α}
    (h : entries.lookup name = some x) : (name, x) ∈ entries := by
  obtain ⟨before, after, rfl, -⟩ := List.lookup_eq_some_iff.mp h
  simp

theorem lookup_cons_of_ne {α : Type} {key name : String} (h : key ≠ name) (x : α)
    (entries : List (String × α)) : ((key, x) :: entries).lookup name = entries.lookup name := by
  rw [List.lookup_cons, beq_eq_false_iff_ne.mpr h.symm]

/-- A value shows a text at a path of names. A list, wherever it stands, shows what its items
show. -/
inductive Value.Shows (s : String) : List String → Value → Prop where
  | number (x : Binary64) : x.text = s → Shows s [] (.number x)
  | text : Shows s [] (.text s)
  | bool (b : Bool) : (if b then "true" else "false") = s → Shows s [] (.bool b)
  | item (path : List String) (items : List Value) (v : Value) : v ∈ items → Shows s path v →
      Shows s path (.list items)
  | entry (name : String) (path : List String) (entries : Properties) (v : Value) :
      entries.lookup name = some v → Shows s path v → Shows s (name :: path) (.fields entries)

namespace Value

variable {s : String}

theorem sizeOf_lt_list {items : List Value} {v : Value} (h : v ∈ items) :
    sizeOf v < sizeOf (list items) := by
  have := List.sizeOf_lt_of_mem h
  simp only [list.sizeOf_spec]
  omega

theorem sizeOf_lt_fields {name : String} {entries : Properties} {v : Value}
    (h : entries.lookup name = some v) : sizeOf v < sizeOf (fields entries) := by
  have := List.sizeOf_lt_of_mem (mem_of_lookup h)
  simp only [fields.sizeOf_spec, Prod.mk.sizeOf_spec] at this ⊢
  omega

theorem mem_textsOfItems_iff {path : List String} {items : List Value} :
    s ∈ textsOfItems items path ↔ ∃ v ∈ items, s ∈ texts v path := by
  induction items with
  | nil => simp [textsOfItems]
  | cons v items ih => simp [textsOfItems, ih]

theorem mem_textsOfEntry_iff {name : String} {path : List String} {entries : Properties} :
    s ∈ textsOfEntry entries name path ↔
      ∃ v, entries.lookup name = some v ∧ s ∈ texts v path := by
  induction entries with
  | nil => simp [textsOfEntry]
  | cons entry entries ih =>
    obtain ⟨key, v⟩ := entry
    by_cases hk : key = name
    · simp [textsOfEntry, hk]
    · simp [textsOfEntry, hk, ih, lookup_cons_of_ne hk]

theorem mem_texts_of_shows {path : List String} {v : Value} (h : v.Shows s path) :
    s ∈ v.texts path := by
  induction h with
  | number x hx => simp [texts, hx]
  | text => simp [texts]
  | bool b hb => simp [texts, hb]
  | item path items v hv _ ih =>
    rw [texts]
    exact mem_textsOfItems_iff.mpr ⟨v, hv, ih⟩
  | entry name path entries v hv _ ih =>
    rw [texts]
    exact mem_textsOfEntry_iff.mpr ⟨v, hv, ih⟩

theorem shows_of_mem_texts (v : Value) {path : List String} (h : s ∈ v.texts path) :
    v.Shows s path := by
  match v, path with
  | .null, _ => simp [texts] at h
  | .number x, [] =>
    simp only [texts, List.mem_singleton] at h
    exact .number x h.symm
  | .text t, [] =>
    simp only [texts, List.mem_singleton] at h
    exact h ▸ .text
  | .bool b, [] =>
    simp only [texts, List.mem_singleton] at h
    exact .bool b h.symm
  | .list items, path =>
    rw [texts, mem_textsOfItems_iff] at h
    obtain ⟨w, hw, h⟩ := h
    exact .item path items w hw (shows_of_mem_texts w h)
  | .fields entries, name :: path =>
    rw [texts, mem_textsOfEntry_iff] at h
    obtain ⟨w, hw, h⟩ := h
    exact .entry name path entries w hw (shows_of_mem_texts w h)
  | .number _, _ :: _ => simp [texts] at h
  | .text _, _ :: _ => simp [texts] at h
  | .bool _, _ :: _ => simp [texts] at h
  | .fields _, [] => simp [texts] at h
termination_by sizeOf v
decreasing_by
  · exact sizeOf_lt_list hw
  · exact sizeOf_lt_fields hw

theorem mem_texts_iff {path : List String} {v : Value} : s ∈ v.texts path ↔ v.Shows s path :=
  ⟨shows_of_mem_texts v, mem_texts_of_shows⟩

end Value

namespace Query

inductive Element.Shows (s : String) : List String → Element → Prop where
  | scalar (texts : List String) : s ∈ texts → Shows s [] (.scalar texts)
  | properties (path : List String) (entries : Properties) :
      (Value.fields entries).Shows s path → Shows s path (.properties entries)
  | field (name : String) (path : List String) (fields : List (String × List Element))
      (elements : List Element) (e : Element) : fields.lookup name = some elements →
      e ∈ elements → Shows s path e → Shows s (name :: path) (.message fields)

variable {s : String} {path : List String} {e : Element} {c : Criterion}

theorem Element.mem_values_iff : s ∈ e.values path ↔ e.Shows s path := by
  constructor
  · intro h
    induction path generalizing e with
    | nil =>
      cases e with
      | scalar texts => exact .scalar texts h
      | properties entries => exact .properties [] entries (Value.mem_texts_iff.mp h)
      | message fields => cases h
    | cons name path ih =>
      cases e with
      | scalar texts => cases h
      | properties entries => exact .properties _ entries (Value.mem_texts_iff.mp h)
      | message fields =>
        obtain ⟨e, he, h⟩ := List.mem_flatMap.mp h
        cases hl : fields.lookup name with
        | none => simp [hl] at he
        | some elements =>
          exact .field name path fields elements e hl (by simpa [hl] using he) (ih h)
  · intro h
    induction h with
    | scalar texts h => exact h
    | properties path entries h =>
      cases path <;> exact Value.mem_texts_iff.mpr h
    | field name path fields elements e hl he _ ih =>
      exact List.mem_flatMap.mpr ⟨e, by simpa [hl] using he, ih⟩

namespace Criterion

def Accepts (c : Criterion) (s : String) : Prop := c.holdsOf [s] = true

theorem accepts_equal_iff {path operand : String} :
    (Criterion.mk path "=" operand).Accepts s ↔ s = operand := by
  have hop : Operator.ofText? "=" = some .equal := by decide
  simp [Accepts, holdsOf, hop]

theorem holdsOf_eq_any (hop : c.op ∈ ["=", "in", "like"]) (values : List String) :
    c.holdsOf values = values.any fun s => c.holdsOf [s] := by
  obtain ⟨path, op, operand⟩ := c
  simp only [List.mem_cons, List.not_mem_nil, or_false] at hop
  rcases hop with rfl | rfl | rfl
  · have hequal : Operator.ofText? "=" = some .equal := by decide
    simp [holdsOf, hequal]
  · have hamong : Operator.ofText? "in" = some .among := by decide
    simp only [holdsOf, hamong, List.any_cons, List.any_nil, Bool.or_false]
  · have hlike : Operator.ofText? "like" = some .like := by decide
    simp [holdsOf, hlike]

theorem holds_iff (hop : c.op ∈ ["=", "in", "like"]) (hpath : c.path ≠ "") :
    c.holds e = true ↔ ∃ s, e.Shows s (segments c.path) ∧ c.Accepts s := by
  rw [holds, holdsOf_eq_any hop, Bool.and_eq_true, List.any_eq_true]
  simp only [Element.mem_values_iff, decide_eq_true_eq]
  exact and_iff_right hpath

theorem holds_unequal_iff (hop : c.op = "!=") (hpath : c.path ≠ "") :
    c.holds e = true ↔ ¬ e.Shows c.operand (segments c.path) := by
  have hunequal : Operator.ofText? "!=" = some .unequal := by decide
  rw [← Element.mem_values_iff, holds, holdsOf, hop, hunequal, Bool.and_eq_true,
    Bool.not_eq_true', List.any_eq_false]
  simp only [decide_eq_true_eq]
  exact ⟨fun h hmem => h.2 _ hmem rfl, fun h => ⟨hpath, fun s hs heq => h (heq ▸ hs)⟩⟩

end Criterion

end Query

end ContractNegotiation
