/-! Whole numbers. The definitions need core alone, while parts of their theory import Mathlib, which
has powers and a zero of its own. Both keep to core's here, so a power or a sum in a theorem is the one
that is computed. -/
namespace SceneStream

attribute [default_instance 20000, scoped instance (high)] instPowNat

/-- The zero that sums of whole numbers start at. -/
scoped instance (priority := high) wholeZero : Zero Nat := Zero.ofOfNat0

end SceneStream
