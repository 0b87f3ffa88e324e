import ContractNegotiation.Proofs.Query.Values

namespace ContractNegotiation

inductive Value.Part (part : Value) : Value → Prop where
  | self : Part part part
  | item (items : List Value) (v : Value) : v ∈ items → Part part v → Part part (.list items)
  | entry (entries : Properties) (name : String) (v : Value) : (name, v) ∈ entries →
      Part part v → Part part (.fields entries)

def Value.Keyed (v : Value) : Prop := ∀ entries w, (Value.fields entries).Part v → ("", w) ∉ entries

theorem Value.Keyed.notMem {s : String} {path : List String} {v : Value} (h : v.Shows s path)
    (hkeyed : v.Keyed) : "" ∉ path := by
  induction h with
  | number | text | bool => simp
  | item path items v hv _ ih =>
    exact ih fun entries w hpart => hkeyed entries w (.item items v hv hpart)
  | entry name path entries v hv _ ih =>
    have hmem := mem_of_lookup hv
    have hname : name ≠ "" := fun h => hkeyed entries v .self (h ▸ hmem)
    have hpath := ih fun inner w hpart => hkeyed inner w (.entry entries name v hmem hpart)
    simpa [Ne.symm hname] using hpath

namespace Query

inductive Element.Contains (entries : Properties) : Element → Prop where
  | here : Contains entries (.properties entries)
  | within (fields : List (String × List Element)) (field : String × List Element) (e : Element) :
      field ∈ fields → e ∈ field.2 → Contains entries e → Contains entries (.message fields)

def Element.Keyed (e : Element) : Prop :=
  ∀ entries, e.Contains entries → (Value.fields entries).Keyed

inductive FieldType.Admits : FieldType → List String → Prop where
  | scalar : Admits .scalar []
  | keys (key : String) (keys : List String) : "" ∉ key :: keys → Admits .properties (key :: keys)
  | field (type : MessageType) (name : String) (ft : FieldType) (rest : List String) :
      type.field? name = some ft → Admits ft rest → Admits (.message type) (name :: rest)

theorem admits_scalar_iff {rest : List String} : FieldType.scalar.Admits rest ↔ rest = [] := by
  constructor
  · rintro ⟨⟩
    rfl
  · rintro rfl
    exact .scalar

theorem admits_properties_iff {rest : List String} :
    FieldType.properties.Admits rest ↔ rest ≠ [] ∧ "" ∉ rest := by
  constructor
  · rintro ⟨⟩
    exact ⟨List.cons_ne_nil _ _, ‹_›⟩
  · rintro ⟨hne, hrest⟩
    obtain ⟨key, keys, rfl⟩ := List.exists_cons_of_ne_nil hne
    exact .keys key keys hrest

theorem admits_message_iff {type : MessageType} {name : String} {rest : List String} :
    (FieldType.message type).Admits (name :: rest) ↔
      ∃ ft, type.field? name = some ft ∧ ft.Admits rest := by
  constructor
  · intro h
    cases h with
    | field _ _ ft _ hft h => exact ⟨ft, hft, h⟩
  · rintro ⟨ft, hft, h⟩
    exact .field type name ft rest hft h

theorem field?_empty (type : MessageType) : type.field? "" = none := by cases type <;> rfl

variable {path : String} {type : MessageType}

theorem checkSegments_iff {segments : List String} :
    checkSegments path type segments = .ok () ↔ (FieldType.message type).Admits segments := by
  induction segments generalizing type with
  | nil =>
    simp only [checkSegments, reduceCtorEq, false_iff]
    rintro ⟨⟩
  | cons name rest ih =>
    by_cases hname : name = ""
    · simp [checkSegments, hname, admits_message_iff, field?_empty]
    rw [admits_message_iff]
    cases hft : type.field? name with
    | none => simp [checkSegments, hname, hft]
    | some ft =>
      cases ft with
      | scalar =>
        cases rest <;> simp [checkSegments, hname, hft, checkBelowScalar, admits_scalar_iff]
      | properties => simp [checkSegments, hname, hft, checkKeys, admits_properties_iff]
      | message inner => simp [checkSegments, hname, hft, ih]

theorem checkPath_iff : checkPath type path = .ok () ↔
    path ≠ "" ∧ (FieldType.message type).Admits (segments path) := by
  by_cases hpath : path = ""
  · simp [checkPath, hpath]
  · simp [checkPath, hpath, checkSegments_iff]

end Query

end ContractNegotiation
