namespace ContractNegotiation

structure Table (α : Type) where
  entries : List (String × α) := []
  deriving Inhabited, Repr

namespace Table

variable {α : Type}

def get? (t : Table α) (key : String) : Option α := t.entries.lookup key

def contains (t : Table α) (key : String) : Bool := (t.get? key).isSome

def erase (t : Table α) (key : String) : Table α := ⟨t.entries.filter (·.1 ≠ key)⟩

def insert (t : Table α) (key : String) (value : α) : Table α :=
  ⟨(key, value) :: (t.erase key).entries⟩

@[simp] theorem get?_empty (key : String) : (⟨[]⟩ : Table α).get? key = none := rfl

theorem lookup_filter_ne (entries : List (String × α)) (key other : String) :
    (entries.filter (·.1 ≠ key)).lookup other =
      if other = key then none else entries.lookup other := by
  induction entries with
  | nil => simp
  | cons entry entries ih =>
    obtain ⟨k, v⟩ := entry
    by_cases hk : k = key
    · subst hk
      simp only [List.filter_cons, ne_eq, not_true_eq_false, decide_false, Bool.false_eq_true,
        if_false, ih]
      by_cases ho : other = k
      · simp [ho]
      · simp [ho, List.lookup_cons, beq_eq_false_iff_ne.mpr ho]
    · simp only [List.filter_cons, ne_eq, hk, not_false_eq_true, decide_true, if_true,
        List.lookup_cons, ih]
      by_cases ho : other = k
      · simp [ho, hk]
      · simp [beq_eq_false_iff_ne.mpr ho]

theorem get?_erase (t : Table α) (key other : String) :
    (t.erase key).get? other = if other = key then none else t.get? other :=
  lookup_filter_ne t.entries key other

theorem get?_insert (t : Table α) (key other : String) (value : α) :
    (t.insert key value).get? other = if other = key then some value else t.get? other := by
  by_cases ho : other = key
  · simp [insert, get?, ho]
  · simpa [insert, get?, ho, List.lookup_cons, beq_eq_false_iff_ne.mpr ho]
      using get?_erase t key other

end Table

end ContractNegotiation
