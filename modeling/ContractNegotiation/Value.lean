import ContractNegotiation.Binary64.General

namespace ContractNegotiation

inductive Value where
  | null
  | number (x : Binary64)
  | text (s : String)
  | bool (b : Bool)
  | list (items : List Value)
  | fields (entries : List (String × Value))
  deriving Inhabited

namespace Value

mutual

def same : Value → Value → Bool
  | .null, .null => true
  | .number x, .number y => x = y
  | .text s, .text t => s = t
  | .bool b, .bool c => b = c
  | .list vs, .list ws => sameItems vs ws
  | .fields es, .fields fs => sameEntries es fs
  | _, _ => false

def sameItems : List Value → List Value → Bool
  | [], [] => true
  | v :: vs, w :: ws => same v w && sameItems vs ws
  | _, _ => false

def sameEntries : List (String × Value) → List (String × Value) → Bool
  | [], [] => true
  | (k, v) :: es, (l, w) :: fs => k = l && same v w && sameEntries es fs
  | _, _ => false

end

mutual

theorem same_iff : ∀ v w : Value, same v w = true ↔ v = w
  | .null, w => by cases w <;> simp [same]
  | .number _, w => by cases w <;> simp [same]
  | .text _, w => by cases w <;> simp [same]
  | .bool _, w => by cases w <;> simp [same]
  | .list vs, w => by cases w <;> simp [same, sameItems_iff vs]
  | .fields es, w => by cases w <;> simp [same, sameEntries_iff es]

theorem sameItems_iff : ∀ vs ws : List Value, sameItems vs ws = true ↔ vs = ws
  | [], ws => by cases ws <;> simp [sameItems]
  | v :: vs, ws => by cases ws <;> simp [sameItems, same_iff v, sameItems_iff vs]

theorem sameEntries_iff : ∀ es fs : List (String × Value), sameEntries es fs = true ↔ es = fs
  | [], fs => by cases fs <;> simp [sameEntries]
  | (k, v) :: es, fs => by
    cases fs with
    | nil => simp [sameEntries]
    | cons f fs => cases f; simp [sameEntries, same_iff v, sameEntries_iff es]

end

instance : DecidableEq Value := fun v w => decidable_of_iff _ (same_iff v w)

mutual

/-- The texts that a value has at a path of field names. Lists are entered at every point of the
path, its end included; null values and field maps have no text of their own. -/
def texts : Value → List String → List String
  | .number x, [] => [x.text]
  | .text s, [] => [s]
  | .bool b, [] => [if b then "true" else "false"]
  | .list items, path => textsOfItems items path
  | .fields entries, name :: path => textsOfEntry entries name path
  | _, _ => []

def textsOfItems : List Value → List String → List String
  | [], _ => []
  | v :: vs, path => texts v path ++ textsOfItems vs path

def textsOfEntry : List (String × Value) → String → List String → List String
  | [], _, _ => []
  | (k, v) :: entries, name, path =>
    if k = name then texts v path else textsOfEntry entries name path

end

end Value

end ContractNegotiation
