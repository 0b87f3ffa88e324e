namespace ContractNegotiation

structure Instant where
  nanos : Int
  deriving DecidableEq, Inhabited, Repr

namespace Instant

def ofMillis (ms : Int) : Instant := ⟨ms * 1000000⟩

def toMillis (t : Instant) : Int := t.nanos.tdiv 1000000

def toSeconds (t : Instant) : Int := t.nanos.tdiv 1000000000

def later (t : Instant) (ms : Int) : Instant := ⟨t.nanos + ms * 1000000⟩

instance : LE Instant := ⟨fun s t => s.nanos ≤ t.nanos⟩

instance : LT Instant := ⟨fun s t => s.nanos < t.nanos⟩

instance (s t : Instant) : Decidable (s ≤ t) := inferInstanceAs (Decidable (s.nanos ≤ t.nanos))

instance (s t : Instant) : Decidable (s < t) := inferInstanceAs (Decidable (s.nanos < t.nanos))

theorem le_def {s t : Instant} : s ≤ t ↔ s.nanos ≤ t.nanos := Iff.rfl

theorem lt_def {s t : Instant} : s < t ↔ s.nanos < t.nanos := Iff.rfl

theorem toMillis_ofMillis (ms : Int) : (ofMillis ms).toMillis = ms := by
  simp only [toMillis, ofMillis]
  exact Int.mul_tdiv_cancel ms (by decide)

end Instant

end ContractNegotiation
