import ContractNegotiation.Proofs.Binary64.General
import ContractNegotiation.Proofs.Query.Operators

namespace ContractNegotiation

namespace Query

inductive Leaf where
  | scalar (texts : List String)
  | number (x : Binary64)

namespace Leaf

def texts : Leaf → List String
  | scalar texts => texts
  | number x => [x.text]

def int (n : Int) : Leaf := scalar [toString n]

end Leaf

end Query

open Query

namespace Value

inductive EndsAt (leaf : Leaf) : List String → Value → Prop where
  | number (x : Binary64) : leaf = .number x → EndsAt leaf [] (.number x)
  | text (s : String) : leaf = .scalar [s] → EndsAt leaf [] (.text s)
  | bool (b : Bool) : leaf = .scalar [if b then "true" else "false"] → EndsAt leaf [] (.bool b)
  | item (path : List String) (items : List Value) (v : Value) : v ∈ items → EndsAt leaf path v →
      EndsAt leaf path (.list items)
  | entry (name : String) (path : List String) (entries : Properties) (v : Value) :
      entries.lookup name = some v → EndsAt leaf path v →
      EndsAt leaf (name :: path) (.fields entries)

variable {s : String} {path : List String} {v : Value} {leaf : Leaf}

theorem shows_iff : v.Shows s path ↔ ∃ leaf, v.EndsAt leaf path ∧ s ∈ leaf.texts := by
  constructor
  · intro h
    induction h with
    | number x hx => exact ⟨_, .number x rfl, List.mem_singleton.mpr hx.symm⟩
    | text => exact ⟨_, .text s rfl, List.mem_singleton_self s⟩
    | bool b hb => exact ⟨_, .bool b rfl, List.mem_singleton.mpr hb.symm⟩
    | item path items v hv _ ih =>
      obtain ⟨leaf, hleaf, hs⟩ := ih
      exact ⟨leaf, .item path items v hv hleaf, hs⟩
    | entry name path entries v hv _ ih =>
      obtain ⟨leaf, hleaf, hs⟩ := ih
      exact ⟨leaf, .entry name path entries v hv hleaf, hs⟩
  · rintro ⟨leaf, hleaf, hs⟩
    induction hleaf with
    | number x hx =>
      subst hx
      exact .number x (List.mem_singleton.mp hs).symm
    | text t ht =>
      subst ht
      exact List.mem_singleton.mp hs ▸ .text
    | bool b hb =>
      subst hb
      exact .bool b (List.mem_singleton.mp hs).symm
    | item path items v hv _ ih => exact .item path items v hv ih
    | entry name path entries v hv _ ih => exact .entry name path entries v hv ih

theorem endsAt_number_iff {x : Binary64} :
    (number x).EndsAt leaf path ↔ path = [] ∧ leaf = .number x := by
  constructor
  · rintro ⟨⟩
    exact ⟨rfl, ‹_›⟩
  · rintro ⟨rfl, h⟩
    exact .number x h

theorem endsAt_fields_iff {name : String} {entries : Properties} :
    (fields entries).EndsAt leaf (name :: path) ↔
      ∃ v, entries.lookup name = some v ∧ v.EndsAt leaf path := by
  constructor
  · rintro ⟨⟩
    exact ⟨_, ‹_›, ‹_›⟩
  · rintro ⟨v, hv, h⟩
    exact .entry name path entries v hv h

end Value

namespace Query

namespace Element

inductive EndsAt (leaf : Leaf) : List String → Element → Prop where
  | scalar (texts : List String) : leaf = .scalar texts → EndsAt leaf [] (.scalar texts)
  | properties (path : List String) (entries : Properties) :
      (Value.fields entries).EndsAt leaf path → EndsAt leaf path (.properties entries)
  | field (name : String) (path : List String) (fields : List (String × List Element))
      (elements : List Element) (e : Element) : fields.lookup name = some elements →
      e ∈ elements → EndsAt leaf path e → EndsAt leaf (name :: path) (.message fields)

def EndsOnlyAt (leaf : Leaf) (path : List String) (e : Element) : Prop :=
  ∀ other, e.EndsAt other path ↔ other = leaf

variable {s : String} {path : List String} {e : Element} {leaf : Leaf}

theorem shows_iff : e.Shows s path ↔ ∃ leaf, e.EndsAt leaf path ∧ s ∈ leaf.texts := by
  constructor
  · intro h
    induction h with
    | scalar texts hs => exact ⟨_, .scalar texts rfl, hs⟩
    | properties path entries h =>
      obtain ⟨leaf, hleaf, hs⟩ := Value.shows_iff.mp h
      exact ⟨leaf, .properties path entries hleaf, hs⟩
    | field name path fields elements e hl he _ ih =>
      obtain ⟨leaf, hleaf, hs⟩ := ih
      exact ⟨leaf, .field name path fields elements e hl he hleaf, hs⟩
  · rintro ⟨leaf, hleaf, hs⟩
    induction hleaf with
    | scalar texts h =>
      subst h
      exact .scalar texts hs
    | properties path entries h => exact .properties path entries (Value.shows_iff.mpr ⟨_, h, hs⟩)
    | field name path fields elements e hl he _ ih =>
      exact .field name path fields elements e hl he ih

theorem EndsOnlyAt.shows_iff (h : e.EndsOnlyAt leaf path) : e.Shows s path ↔ s ∈ leaf.texts := by
  rw [Element.shows_iff]
  simp only [h _, exists_eq_left]

theorem endsAt_properties_iff {entries : Properties} :
    (properties entries).EndsAt leaf path ↔ (Value.fields entries).EndsAt leaf path := by
  constructor
  · rintro ⟨⟩
    assumption
  · exact .properties path entries

theorem endsAt_message_iff {name : String} {fields : List (String × List Element)} :
    (message fields).EndsAt leaf (name :: path) ↔
      ∃ elements, fields.lookup name = some elements ∧ ∃ e ∈ elements, e.EndsAt leaf path := by
  constructor
  · rintro ⟨⟩
    exact ⟨_, ‹_›, _, ‹_›, ‹_›⟩
  · rintro ⟨elements, hl, e, he, h⟩
    exact .field name path fields elements e hl he h

end Element

namespace Criterion

variable {s path : String} {e : Element} {leaf : Leaf}

theorem holds_of_endsAt (hpath : path ≠ "") (h : e.EndsAt leaf (segments path))
    (hs : s ∈ leaf.texts) : (Criterion.mk path "=" s).holds e = true :=
  (holds_equal_iff hpath).mpr (Element.shows_iff.mpr ⟨leaf, h, hs⟩)

theorem holds_iff_of_endsOnlyAt (hpath : path ≠ "") (h : e.EndsOnlyAt leaf (segments path)) :
    (Criterion.mk path "=" s).holds e = true ↔ s ∈ leaf.texts :=
  (holds_equal_iff hpath).trans h.shows_iff

/-- How whole numbers at a path are compared: integers by all their digits, and the numbers of
free-form fields, which may be any whole number below `2 ^ 53`, by six. -/
structure ComparesWhole (path : String) : Prop where
  represented : ∀ n : Int, n.natAbs < Binary64.twoTo 53 →
    (Binary64.ofInt n).toInt? = some n ∧ Binary64.ofInt n ≠ .negativeZero
  integer : ∀ (e : Element) (n : Int), e.EndsAt (.int n) (segments path) →
    (Criterion.mk path "=" (toString n)).holds e = true
  number : ∀ (e : Element) (x : Binary64) (n : Int), x.toInt? = some n → x ≠ .negativeZero →
    n.natAbs < Binary64.tenTo 6 → e.EndsAt (.number x) (segments path) →
    (Criterion.mk path "=" (toString n)).holds e = true
  number_iff : ∀ (e : Element) (x : Binary64) (n : Int), x.toInt? = some n →
    e.EndsOnlyAt (.number x) (segments path) →
    ((Criterion.mk path "=" (toString n)).holds e = true ↔
      n.natAbs < Binary64.tenTo 6 ∧ x ≠ .negativeZero)
  shared_iff : ∀ (d e : Element) (x y : Binary64) (m n : Int), x.toInt? = some m →
    y.toInt? = some n → d.EndsOnlyAt (.number x) (segments path) →
    e.EndsOnlyAt (.number y) (segments path) →
    ((∃ s, (Criterion.mk path "=" s).holds d = true ∧ (Criterion.mk path "=" s).holds e = true) ↔
      x.isNegative = y.isNegative ∧
        Binary64.rounded 6 m.natAbs = Binary64.rounded 6 n.natAbs)

/-- An integer field satisfies the equality with its digits. So does a whole number of free-form
fields as long as it has at most six digits and is not negative zero, and no other one does. Numbers
with longer digits satisfy the same equality when they have the same sign and round to the same six
digits, and only then. -/
theorem whole_numbers_compared (path : String) (hpath : path ≠ "") : ComparesWhole path := by
  have htext : ∀ {x : Binary64} {n : Int}, x.toInt? = some n →
      (x.text = toString n ↔ n.natAbs < Binary64.tenTo 6 ∧ x ≠ .negativeZero) := by
    intro x n hx
    have hcount : Binary64.decimalLength n.natAbs ≤ 6 ↔ n.natAbs < Binary64.tenTo 6 :=
      Binary64.decimalLength_le_iff (by decide)
    rw [← hcount]
    exact Binary64.text_eq_toString_iff hx
  refine ⟨fun n hn => ?_, fun e n h => ?_, fun e x n hx hzero hn h => ?_, fun e x n hx h => ?_,
    fun d e x y m n hx hy hd he => ?_⟩
  · obtain ⟨hvalue, hsign⟩ := Binary64.ofInt_exact hn
    exact ⟨hvalue, (Binary64.isNegative_eq_iff hvalue).mp hsign⟩
  · exact holds_of_endsAt hpath h (List.mem_singleton_self _)
  · exact holds_of_endsAt hpath h (List.mem_singleton.mpr ((htext hx).mpr ⟨hn, hzero⟩).symm)
  · rw [holds_iff_of_endsOnlyAt hpath h, ← htext hx, Leaf.texts, List.mem_singleton, eq_comm]
  · simp only [holds_iff_of_endsOnlyAt hpath hd, holds_iff_of_endsOnlyAt hpath he, Leaf.texts,
      List.mem_singleton, exists_eq_left]
    exact Binary64.text_eq_iff hx hy

def limited (n : Int) : Element :=
  .ofPolicy { extensibleProperties := some [("limit", .number (.ofInt n))] }

theorem limited_endsOnlyAt (n : Int) : (limited n).EndsOnlyAt (.number (.ofInt n))
    (segments "extensibleProperties.limit") := by
  have hpath : segments "extensibleProperties.limit" = ["extensibleProperties", "limit"] := by
    decide
  intro other
  simp [hpath, limited, Element.ofPolicy, Element.endsAt_message_iff, Element.present,
    Element.endsAt_properties_iff, Value.endsAt_fields_iff, Value.endsAt_number_iff,
    List.lookup_cons]

theorem whole_numbers_compared_of_limits :
    (Criterion.mk "extensibleProperties.limit" "=" "-999999").holds (limited (-999999)) = true ∧
    (Criterion.mk "extensibleProperties.limit" "=" "1000000").holds (limited 1000000) = false ∧
    ∃ s, (Criterion.mk "extensibleProperties.limit" "=" s).holds (limited 1234567) = true ∧
      (Criterion.mk "extensibleProperties.limit" "=" s).holds (limited 1234571) = true := by
  have h := whole_numbers_compared "extensibleProperties.limit" (by decide)
  refine ⟨?_, ?_, ?_⟩
  · obtain ⟨hvalue, hzero⟩ := h.represented (-999999) (by decide)
    exact (h.number_iff _ _ _ hvalue (limited_endsOnlyAt _)).mpr ⟨by decide, hzero⟩
  · obtain ⟨hvalue, -⟩ := h.represented 1000000 (by decide)
    rw [← Bool.not_eq_true]
    exact fun hholds =>
      absurd ((h.number_iff _ _ _ hvalue (limited_endsOnlyAt _)).mp hholds).1 (by decide)
  · obtain ⟨hfirst, -⟩ := h.represented 1234567 (by decide)
    obtain ⟨hsecond, -⟩ := h.represented 1234571 (by decide)
    exact (h.shared_iff _ _ _ _ _ _ hfirst hsecond (limited_endsOnlyAt _)
      (limited_endsOnlyAt _)).mpr ⟨by decide, by decide⟩

/-- A million is missed by its own digits, which find it in an integer field, and cannot be told
from the next number. -/
theorem million_missed :
    (Criterion.mk "extensibleProperties.limit" "=" "1000000").holds (limited 1000000) = false ∧
    (Criterion.mk "contractStart" "=" "1000000").holds (.ofOffer { contractStart := 1000000 }) =
      true ∧
    (Criterion.mk "extensibleProperties.limit" "=" "1e+06").holds (limited 1000000) = true ∧
    (Criterion.mk "extensibleProperties.limit" "=" "1e+06").holds (limited 1000001) = true := by
  have hfirst : (Binary64.ofInt 1000000).text = "1e+06" := by decide +kernel
  have hsecond : (Binary64.ofInt 1000001).text = "1e+06" := by decide +kernel
  have hlimited : ∀ (n : Int) (s : String),
      (Criterion.mk "extensibleProperties.limit" "=" s).holds (limited n) = true ↔
        s = (Binary64.ofInt n).text := fun n s => by
    rw [holds_iff_of_endsOnlyAt (by decide) (limited_endsOnlyAt n), Leaf.texts, List.mem_singleton]
  refine ⟨?_, by decide, (hlimited _ _).mpr hfirst.symm, (hlimited _ _).mpr hsecond.symm⟩
  rw [← Bool.not_eq_true, hlimited, hfirst]
  decide

end Criterion

end Query

end ContractNegotiation
