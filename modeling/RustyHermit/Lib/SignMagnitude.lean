import Mathlib.Logic.Function.Basic

/-!
# Bit patterns with a sign

The pattern of a floating-point number is its sign bit and, below that, its magnitude:
exponent and mantissa. `clearSign` and `negate` are the absolute value and the negative
of what the pattern stands for, whatever the format. A conversion between two formats
that keeps the sign and converts the magnitude commutes with them.
-/

namespace RustyHermit

namespace SignMagnitude

variable {w v : Nat}

/-- The bits below the sign. -/
def magnitude (x : BitVec (w + 1)) : BitVec w :=
  x.setWidth w

def clearSign (x : BitVec (w + 1)) : BitVec (w + 1) :=
  BitVec.cons false (magnitude x)

def negate (x : BitVec (w + 1)) : BitVec (w + 1) :=
  BitVec.cons (!x.msb) (magnitude x)

/-- Another format, with the same sign. -/
def convert (f : BitVec w → BitVec v) (x : BitVec (w + 1)) : BitVec (v + 1) :=
  BitVec.cons x.msb (f (magnitude x))

@[simp] theorem magnitude_cons (s : Bool) (m : BitVec w) : magnitude (BitVec.cons s m) = m :=
  BitVec.setWidth_cons

@[simp] theorem msb_clearSign (x : BitVec (w + 1)) : (clearSign x).msb = false :=
  BitVec.msb_cons

@[simp] theorem magnitude_clearSign (x : BitVec (w + 1)) :
    magnitude (clearSign x) = magnitude x :=
  magnitude_cons ..

@[simp] theorem magnitude_negate (x : BitVec (w + 1)) : magnitude (negate x) = magnitude x :=
  magnitude_cons ..

@[simp] theorem magnitude_convert (f : BitVec w → BitVec v) (x : BitVec (w + 1)) :
    magnitude (convert f x) = f (magnitude x) :=
  magnitude_cons ..

/-- The absolute value is even, -/
theorem clearSign_negate (x : BitVec (w + 1)) : clearSign (negate x) = clearSign x := by
  rw [clearSign, magnitude_negate]
  rfl

/-- idempotent -/
theorem clearSign_clearSign (x : BitVec (w + 1)) : clearSign (clearSign x) = clearSign x := by
  rw [clearSign, magnitude_clearSign]
  rfl

/-- and the same in all formats. -/
theorem clearSign_convert (f : BitVec w → BitVec v) (x : BitVec (w + 1)) :
    clearSign (convert f x) = convert f (clearSign x) := by
  rw [clearSign, magnitude_convert, convert, msb_clearSign, magnitude_clearSign]

end SignMagnitude

end RustyHermit
