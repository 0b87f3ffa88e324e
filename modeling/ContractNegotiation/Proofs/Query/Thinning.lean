import ContractNegotiation.Proofs.Query.Values

namespace ContractNegotiation

def put {α : Type} (name : String) (x : α) : List (String × α) → List (String × α)
  | [] => []
  | (key, y) :: entries =>
    if key = name then (key, x) :: entries else (key, y) :: put name x entries

section

variable {α : Type} {name : String} {x y : α} {entries : List (String × α)}

theorem lookup_put (h : entries.lookup name = some x) :
    (put name y entries).lookup name = some y := by
  induction entries with
  | nil => cases h
  | cons entry entries ih =>
    obtain ⟨key, z⟩ := entry
    by_cases hkey : key = name
    · simp [put, hkey]
    · rw [lookup_cons_of_ne hkey] at h
      simpa [put, hkey, lookup_cons_of_ne hkey] using ih h

theorem put_lookup (h : entries.lookup name = some x) : put name x entries = entries := by
  induction entries with
  | nil => rfl
  | cons entry entries ih =>
    obtain ⟨key, z⟩ := entry
    by_cases hkey : key = name
    · obtain rfl : z = x := by simpa [hkey] using h
      simp [put, hkey]
    · rw [lookup_cons_of_ne hkey] at h
      simp [put, hkey, ih h]

end

def Value.Ends : List String → Value → Prop
  | _, .list items => items = []
  | name :: _, .fields entries => entries.lookup name = none
  | _, _ => True

inductive Value.Thinned : List String → Value → Value → Prop where
  | ended (path : List String) (v : Value) : v.Ends path → Thinned path v v
  | item (path : List String) (items : List Value) (v w : Value) : v ∈ items →
      Thinned path v w → Thinned path (.list items) (.list [w])
  | entry (name : String) (path : List String) (entries : Properties) (v w : Value) :
      entries.lookup name = some v → Thinned path v w →
      Thinned (name :: path) (.fields entries) (.fields (put name w entries))

namespace Value

variable {s : String} {path : List String} {v w u : Value}

theorem Shows.exists_thinned (h : v.Shows s path) : ∃ w, v.Thinned path w ∧ w.Shows s path := by
  induction h with
  | number x hx => exact ⟨_, .ended _ _ trivial, .number x hx⟩
  | text => exact ⟨_, .ended _ _ trivial, .text⟩
  | bool b hb => exact ⟨_, .ended _ _ trivial, .bool b hb⟩
  | item path items v hv _ ih =>
    obtain ⟨w, hw, hs⟩ := ih
    exact ⟨_, .item path items v w hv hw, .item path [w] w List.mem_cons_self hs⟩
  | entry name path entries v hv _ ih =>
    obtain ⟨w, hw, hs⟩ := ih
    exact ⟨_, .entry name path entries v w hv hw, .entry name path _ w (lookup_put hv) hs⟩

theorem Thinned.shows (h : v.Thinned path w) (hs : w.Shows s path) : v.Shows s path := by
  induction h with
  | ended => exact hs
  | item path items v w hv _ ih =>
    cases hs with
    | item _ _ u hu hs =>
      obtain rfl := List.mem_singleton.mp hu
      exact .item path items v hv (ih hs)
  | entry name path entries v w hv _ ih =>
    cases hs with
    | entry _ _ _ u hu hs =>
      obtain rfl := Option.some.inj ((lookup_put hv).symm.trans hu)
      exact .entry name path entries v hv (ih hs)

theorem exists_thinned (v : Value) (path : List String) : ∃ w, v.Thinned path w := by
  match v, path with
  | .list [], path => exact ⟨_, .ended _ _ rfl⟩
  | .list (v :: items), path =>
    obtain ⟨w, hw⟩ := exists_thinned v path
    exact ⟨_, .item path (v :: items) v w List.mem_cons_self hw⟩
  | .fields entries, name :: path =>
    cases hv : entries.lookup name with
    | none => exact ⟨_, .ended _ _ hv⟩
    | some v =>
      obtain ⟨w, hw⟩ := exists_thinned v path
      exact ⟨_, .entry name path entries v w hv hw⟩
  | .fields _, [] => exact ⟨_, .ended _ _ trivial⟩
  | .null, _ => exact ⟨_, .ended _ _ trivial⟩
  | .number _, _ => exact ⟨_, .ended _ _ trivial⟩
  | .text _, _ => exact ⟨_, .ended _ _ trivial⟩
  | .bool _, _ => exact ⟨_, .ended _ _ trivial⟩
-- a list is entered without a step on the path, so that only the value gets smaller
termination_by sizeOf v
decreasing_by
  · exact sizeOf_lt_list List.mem_cons_self
  · exact sizeOf_lt_fields hv

theorem Thinned.fields {entries : Properties} (h : (Value.fields entries).Thinned path w) :
    ∃ entries', w = .fields entries' := by
  cases h with
  | ended => exact ⟨_, rfl⟩
  | entry => exact ⟨_, rfl⟩

theorem Ends.unique (h : v.Ends path) (hu : v.Thinned path u) : u = v := by
  cases hu with
  | ended => rfl
  | item _ items w _ hw _ =>
    obtain rfl : items = [] := by simpa [Ends] using h
    cases hw
  | entry name _ entries w _ hw _ =>
    have hnone : entries.lookup name = none := h
    rw [hnone] at hw
    cases hw

theorem Thinned.unique (h : v.Thinned path w) (hu : w.Thinned path u) : u = w := by
  induction h generalizing u with
  | ended path v hv => exact hv.unique hu
  | item path items v w _ _ ih =>
    cases hu with
    | ended => rfl
    | item _ _ x y hx hy =>
      obtain rfl := List.mem_singleton.mp hx
      rw [ih hy]
  | entry name path entries v w hv _ ih =>
    cases hu with
    | ended => rfl
    | entry _ _ _ x y hx hy =>
      obtain rfl := Option.some.inj ((lookup_put hv).symm.trans hx)
      rw [ih hy, put_lookup (lookup_put hv)]

end Value

namespace Query

def Element.Ends : List String → Element → Prop
  | name :: _, .message fields => fields.lookup name = none ∨ fields.lookup name = some []
  | _, .properties _ => False
  | _, _ => True

/-- Along a path, each field has been cut down to one of its elements, and each list within its
free-form fields to one of its items. -/
inductive Element.Thinned : List String → Element → Element → Prop where
  | ended (path : List String) (e : Element) : e.Ends path → Thinned path e e
  | properties (path : List String) (entries entries' : Properties) :
      (Value.fields entries).Thinned path (.fields entries') →
      Thinned path (.properties entries) (.properties entries')
  | field (name : String) (path : List String) (fields : List (String × List Element))
      (elements : List Element) (e e' : Element) : fields.lookup name = some elements →
      e ∈ elements → Thinned path e e' →
      Thinned (name :: path) (.message fields) (.message (put name [e'] fields))

variable {s : String} {path : List String} {e e' : Element} {c : Criterion}

namespace Element

theorem Shows.exists_thinned (h : e.Shows s path) : ∃ e', e.Thinned path e' ∧ e'.Shows s path := by
  induction h with
  | scalar texts hs => exact ⟨_, .ended _ _ trivial, .scalar texts hs⟩
  | properties path entries h =>
    obtain ⟨w, hw, hs⟩ := h.exists_thinned
    obtain ⟨entries', rfl⟩ := hw.fields
    exact ⟨_, .properties path entries entries' hw, .properties path entries' hs⟩
  | field name path fields elements e hl he _ ih =>
    obtain ⟨e', he', hs⟩ := ih
    exact ⟨_, .field name path fields elements e e' hl he he',
      .field name path _ [e'] e' (lookup_put hl) List.mem_cons_self hs⟩

theorem Thinned.shows (h : e.Thinned path e') (hs : e'.Shows s path) : e.Shows s path := by
  induction h with
  | ended => exact hs
  | properties path entries entries' h =>
    cases hs with
    | properties _ _ hs => exact .properties path entries (h.shows hs)
  | field name path fields elements e e' hl he _ ih =>
    cases hs with
    | field _ _ _ _ x hx hmem hs =>
      obtain rfl := Option.some.inj ((lookup_put hl).symm.trans hx)
      obtain rfl := List.mem_singleton.mp hmem
      exact .field name path fields elements e hl he (ih hs)

theorem exists_thinned (e : Element) (path : List String) : ∃ e', e.Thinned path e' := by
  induction path generalizing e with
  | nil =>
    cases e with
    | scalar texts => exact ⟨_, .ended _ _ trivial⟩
    | properties entries => exact ⟨_, .properties _ entries entries (.ended _ _ trivial)⟩
    | message fields => exact ⟨_, .ended _ _ trivial⟩
  | cons name path ih =>
    cases e with
    | scalar texts => exact ⟨_, .ended _ _ trivial⟩
    | properties entries =>
      obtain ⟨w, hw⟩ := Value.exists_thinned (.fields entries) (name :: path)
      obtain ⟨entries', rfl⟩ := hw.fields
      exact ⟨_, .properties _ entries entries' hw⟩
    | message fields =>
      match hl : fields.lookup name with
      | none => exact ⟨_, .ended _ _ (.inl hl)⟩
      | some [] => exact ⟨_, .ended _ _ (.inr hl)⟩
      | some (e :: elements) =>
        obtain ⟨e', he'⟩ := ih e
        exact ⟨_, .field name path fields _ e e' hl List.mem_cons_self he'⟩

theorem Ends.unique {u : Element} (h : e.Ends path) (hu : e.Thinned path u) : u = e := by
  cases hu with
  | ended => rfl
  | properties path entries => exact absurd h (by cases path <;> exact id)
  | field name path fields elements x _ hx hmem _ =>
    rcases h with h | h
    · rw [h] at hx
      cases hx
    · obtain rfl := Option.some.inj (h.symm.trans hx)
      cases hmem

theorem Thinned.unique {u : Element} (h : e.Thinned path e') (hu : e'.Thinned path u) : u = e' := by
  induction h generalizing u with
  | ended path e he => exact he.unique hu
  | properties path entries entries' h =>
    cases hu with
    | ended => rfl
    | properties _ _ entries'' h' =>
      injection h.unique h' with heq
      rw [heq]
  | field name path fields elements e e' hl _ _ ih =>
    cases hu with
    | ended => rfl
    | field _ _ _ _ x y hx hmem hy =>
      obtain rfl := Option.some.inj ((lookup_put hl).symm.trans hx)
      obtain rfl := List.mem_singleton.mp hmem
      rw [ih hy, put_lookup (lookup_put hl)]

theorem shows_iff_thinned : e.Shows s path ↔ ∃ e', e.Thinned path e' ∧ e'.Shows s path :=
  ⟨Shows.exists_thinned, fun ⟨_, h, hs⟩ => h.shows hs⟩

end Element

namespace Criterion

theorem holds_iff_thinned (hop : c.op ∈ ["=", "in", "like"]) (hpath : c.path ≠ "") :
    c.holds e = true ↔ ∃ e', e.Thinned (segments c.path) e' ∧ c.holds e' = true := by
  simp only [holds_iff hop hpath]
  constructor
  · rintro ⟨s, hs, haccepts⟩
    obtain ⟨e', he', hs⟩ := hs.exists_thinned
    exact ⟨e', he', s, hs, haccepts⟩
  · rintro ⟨e', he', s, hs, haccepts⟩
    exact ⟨s, he'.shows hs, haccepts⟩

theorem holds_unequal_iff_thinned (hop : c.op = "!=") (hpath : c.path ≠ "") :
    c.holds e = true ↔ ∀ e', e.Thinned (segments c.path) e' → c.holds e' = true := by
  simp only [holds_unequal_iff hop hpath, Element.shows_iff_thinned (e := e), not_exists, not_and]

end Criterion

end Query

end ContractNegotiation
