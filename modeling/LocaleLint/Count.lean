/-!
# Capped counters

A counter of thirty-two bits that stays at its top value instead of wrapping.
Lines, columns and the totals of a report are such counters. Addition is the
exact sum cut off at the limit, so it is associative and commutative.
-/

set_option autoImplicit false

namespace LocaleLint

/-- A number from zero to `2 ^ 32 - 1`. -/
structure Count where
  val : Nat
  val_le : val ≤ 4294967295
deriving DecidableEq, Repr

namespace Count

/-- The greatest counter. -/
def limit : Nat := 4294967295

/-- The counter that shows `n`: `n` itself, or the limit when `n` is past it. -/
def ofNat (n : Nat) : Count :=
  ⟨min n limit, Nat.min_le_right n limit⟩

/-- The counter whose value is `n`, when `n` is in range. -/
def ofNat? (n : Nat) : Option Count :=
  if h : n ≤ limit then some ⟨n, h⟩ else none

instance (n : Nat) : OfNat Count n := ⟨ofNat n⟩

instance : Inhabited Count := ⟨0⟩

/-- Addition stops at the limit. -/
instance : Add Count := ⟨fun a b => ofNat (a.val + b.val)⟩

/-- A counter is told by its value. -/
theorem ext {a b : Count} (h : a.val = b.val) : a = b := by
  cases a; cases b; cases h; rfl

/-- A counter shows a number up to the limit, and the limit beyond. -/
@[simp] theorem val_ofNat (n : Nat) : (ofNat n).val = min n limit := rfl

/-- A sum of counters is the sum of their values, cut off at the limit. -/
@[simp] theorem val_add (a b : Count) : (a + b).val = min (a.val + b.val) limit := rfl

/-- The counter that starts at zero shows zero. -/
@[simp] theorem val_zero : (0 : Count).val = 0 := rfl

/-- The counter for one shows one, which is far from the limit. -/
@[simp] theorem val_one : (1 : Count).val = 1 := rfl

/-- Showing the value of a counter gives the counter back. -/
@[simp] theorem ofNat_val (a : Count) : ofNat a.val = a :=
  ext (Nat.min_eq_left a.val_le)

/-- Two sums that are cut off add up to the cut-off sum. -/
theorem ofNat_add_ofNat (m n : Nat) : ofNat m + ofNat n = ofNat (m + n) := by
  apply ext
  simp only [val_add, val_ofNat]
  omega

end Count

end LocaleLint
