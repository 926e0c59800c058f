/-!
# `smoltcp::time`

The clock types of smoltcp that `executor.rs` and `mod.rs` compute with: an
`Instant` is a signed 64-bit count of milliseconds, a `Duration` an unsigned
one, and adding a duration reinterprets its milliseconds as signed and wraps.
-/

namespace RustyHermit.Smoltcp

/-- `smoltcp::time::Duration`. -/
structure Duration where
  millis : UInt64
deriving DecidableEq, Repr

/-- `smoltcp::time::Instant`. -/
structure Instant where
  millis : Int64
deriving DecidableEq, Repr

namespace Instant

/-- `Instant + Duration`. -/
instance : HAdd Instant Duration Instant where
  hAdd t d := ⟨t.millis + d.millis.toInt64⟩

instance : LE Instant where
  le t u := t.millis ≤ u.millis

instance (t u : Instant) : Decidable (t ≤ u) :=
  inferInstanceAs (Decidable (t.millis ≤ u.millis))

end Instant

end RustyHermit.Smoltcp
