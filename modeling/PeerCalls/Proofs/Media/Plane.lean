import PeerCalls.Media.Plane

/-!
# How many bytes a plane needs

A pitch is below 2³² and so is a height, so their product fits a 64-bit word: the overflow that
`requiredLength?` checks for does not happen, and a plane needs `pitch * height` bytes, counted
without any bound.  With this, checking a plane is one comparison of its length.
-/

namespace PeerCalls

/-- A checked product is the product of the numbers, where it is one at all. -/
theorem checkedProduct_eq_some_iff {first second product : UInt64} :
    checkedProduct first second = some product ↔
      product.toNat = first.toNat * second.toNat := by
  unfold checkedProduct
  constructor
  · intro h
    split at h
    · rename_i hfits
      obtain rfl := Option.some.inj h
      rw [UInt64.toNat_mul]
      exact Nat.mod_eq_of_lt hfits
    · cases h
  · intro h
    have hfits : first.toNat * second.toNat < UInt64.size := by
      rw [← h]
      exact product.toNat_lt
    rw [if_pos hfits, Option.some_inj]
    apply UInt64.toNat_inj.mp
    rw [UInt64.toNat_mul, h]
    exact Nat.mod_eq_of_lt hfits

namespace PlaneLayout

/-- The bytes that the layout needs. -/
def need (layout : PlaneLayout) : Nat := layout.pitch.toNat * layout.height.toNat

variable (layout : PlaneLayout)

/-- The pitch is the greater one of the width and the size of the stride. -/
theorem toNat_pitch :
    layout.pitch.toNat = max layout.width.toNat layout.stride.toInt.natAbs := by
  have hlow : -2 ^ 31 ≤ layout.stride.toInt := Int32.le_toInt layout.stride
  have hhigh : layout.stride.toInt < 2 ^ 31 := Int32.toInt_lt layout.stride
  have hstride : (UInt64.ofNat layout.stride.toInt.natAbs).toNat = layout.stride.toInt.natAbs :=
    UInt64.toNat_ofNat_of_lt (by unfold UInt64.size; omega)
  have hmax : ∀ first second : UInt64,
      (max first second).toNat = max first.toNat second.toNat := by
    intro first second
    change (if first ≤ second then second else first).toNat = _
    simp only [UInt64.le_iff_toNat_le]
    split <;> omega
  rw [pitch, hmax, hstride, UInt32.toNat_toUInt64]

/-- A row of the buffer has room for the visible bytes of a row. -/
theorem width_le_pitch : layout.width.toNat ≤ layout.pitch.toNat := by
  rw [toNat_pitch]
  exact Nat.le_max_left _ _

/-- The bytes that a layout needs are counted in a word, whatever its sizes. -/
theorem need_lt : layout.need < UInt64.size := by
  have hpitch : layout.pitch.toNat < 2 ^ 32 := by
    have hwidth := layout.width.toNat_lt
    have hlow := Int32.le_toInt layout.stride
    have hhigh := Int32.toInt_lt layout.stride
    rw [toNat_pitch]
    omega
  calc layout.need
      < 2 ^ 32 * 2 ^ 32 := Nat.mul_lt_mul'' hpitch layout.height.toNat_lt
    _ = UInt64.size := rfl

/-- The bytes that a layout needs never overflow a word. -/
theorem requiredLength?_eq : layout.requiredLength?.map UInt64.toNat = some layout.need := by
  have hword : (UInt64.ofNat layout.need).toNat = layout.need :=
    UInt64.toNat_ofNat_of_lt layout.need_lt
  have hproduct : layout.requiredLength? = some (UInt64.ofNat layout.need) := by
    rw [requiredLength?, checkedProduct_eq_some_iff, hword, UInt32.toNat_toUInt64, need]
  rw [hproduct, Option.map_some, hword]

/-- A plane passes if it has the bytes that its layout needs. -/
theorem check_eq (name : String) (plane : Array UInt8) :
    layout.check name plane =
      if plane.size < layout.need then .error (.planeTooShort name plane.size layout.need)
      else .ok layout.need := by
  obtain ⟨word, hword, hneed⟩ := Option.map_eq_some_iff.mp layout.requiredLength?_eq
  simp only [check, hword, hneed]

/-- A plane of some size needs some bytes, whatever its stride. -/
theorem need_pos {layout : PlaneLayout} (hwidth : layout.width ≠ 0) (hheight : layout.height ≠ 0) :
    0 < layout.need := by
  have hpos : ∀ size : UInt32, size ≠ 0 → 0 < size.toNat := fun size hsize =>
    Nat.pos_of_ne_zero fun hzero => hsize (UInt32.toNat_inj.mp hzero)
  exact Nat.mul_pos (Nat.lt_of_lt_of_le (hpos _ hwidth) layout.width_le_pitch) (hpos _ hheight)

end PlaneLayout

end PeerCalls
