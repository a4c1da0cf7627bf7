import PeerCalls.Proofs.Media.Plane

/-!
# Where the rows of a plane lie

The stored rows of a plane follow one another at the distance of the pitch, and image row `row` is
stored row `row`, or, bottom-up, stored row `height - 1 - row`.  So the visible bytes of a row
begin at `rowStart row`, a number counted without any bound.

Every offset is computed in words.  The last visible byte of any row still lies within the bytes
that the layout needs, and these are counted in a word; so neither the product nor the sum that
lead to a row leave the words, and what is read are the bytes from `rowStart row` on.
-/

namespace PeerCalls.PlaneLayout

variable (layout : PlaneLayout) {row other : UInt32} {plane : Array UInt8}

/-- The position among the stored rows of an image row, as a number. -/
def storedIndex (row : Nat) : Nat :=
  if layout.stride.toInt < 0 then layout.height.toNat - 1 - row else row

/-- Where an image row starts in the buffer, as a number. -/
def rowStart (row : Nat) : Nat := layout.storedIndex row * layout.pitch.toNat

theorem isBottomUp_iff : layout.isBottomUp = true ↔ layout.stride.toInt < 0 := by
  unfold isBottomUp
  rw [decide_eq_true_iff, Int32.lt_iff_toInt_lt]
  rfl

/-- Counting rows from the last one does not go below the first one. -/
theorem toNat_mirrored (h : row < layout.height) :
    (layout.height - 1 - row).toNat = layout.height.toNat - 1 - row.toNat := by
  have hrow : row.toNat < layout.height.toNat := UInt32.lt_iff_toNat_lt.mp h
  have hone : (1 : UInt32) ≤ layout.height := by
    rw [UInt32.le_iff_toNat_le]
    exact Nat.lt_of_le_of_lt (Nat.zero_le _) hrow
  have hlast : (layout.height - 1).toNat = layout.height.toNat - 1 :=
    UInt32.toNat_sub_of_le _ _ hone
  have hbefore : row ≤ layout.height - 1 := by
    rw [UInt32.le_iff_toNat_le, hlast]
    omega
  rw [UInt32.toNat_sub_of_le _ _ hbefore, hlast]

theorem toNat_storedRow (h : row < layout.height) :
    (layout.storedRow row).toNat = layout.storedIndex row.toNat := by
  unfold storedRow storedIndex
  simp only [isBottomUp_iff]
  split
  · exact layout.toNat_mirrored h
  · rfl

theorem storedIndex_lt {row : Nat} (h : row < layout.height.toNat) :
    layout.storedIndex row < layout.height.toNat := by
  unfold storedIndex
  split <;> omega

/-- The rows of the image are stored each in a place of its own. -/
theorem storedIndex_inj {row other : Nat} (h : row < layout.height.toNat)
    (h' : other < layout.height.toNat) (hsame : layout.storedIndex row = layout.storedIndex other) :
    row = other := by
  unfold storedIndex at hsame
  split at hsame <;> omega

/-- A stored row ends before the next one begins. -/
theorem stored_end_le {first second : Nat} (h : first < second) :
    first * layout.pitch.toNat + layout.width.toNat ≤ second * layout.pitch.toNat :=
  calc first * layout.pitch.toNat + layout.width.toNat
      ≤ first * layout.pitch.toNat + layout.pitch.toNat :=
        Nat.add_le_add_left layout.width_le_pitch _
    _ = (first + 1) * layout.pitch.toNat := (Nat.succ_mul _ _).symm
    _ ≤ second * layout.pitch.toNat := Nat.mul_le_mul_right _ h

/-- A row lies within the bytes that the layout needs. -/
theorem rowStart_add_width_le {row : Nat} (h : row < layout.height.toNat) :
    layout.rowStart row + layout.width.toNat ≤ layout.need := by
  rw [need, Nat.mul_comm]
  exact layout.stored_end_le (layout.storedIndex_lt h)

/-- Of two rows one ends before the other begins. -/
theorem rows_disjoint {row other : Nat} (h : row < layout.height.toNat)
    (h' : other < layout.height.toNat) (hne : row ≠ other) :
    layout.rowStart row + layout.width.toNat ≤ layout.rowStart other ∨
      layout.rowStart other + layout.width.toNat ≤ layout.rowStart row := by
  have hstored : layout.storedIndex row ≠ layout.storedIndex other :=
    fun hsame => hne (layout.storedIndex_inj h h' hsame)
  rcases Nat.lt_or_gt_of_ne hstored with hlt | hgt
  · exact Or.inl (layout.stored_end_le hlt)
  · exact Or.inr (layout.stored_end_le hgt)

/-! ## Offsets in words -/

/-- The end of a row is counted in a word. -/
theorem rowStart_lt {row : Nat} (h : row < layout.height.toNat) :
    layout.rowStart row + layout.width.toNat < UInt64.size :=
  Nat.lt_of_le_of_lt (layout.rowStart_add_width_le h) layout.need_lt

/-- The offset of a row is where the row starts, and so is the end of its visible bytes. -/
theorem rowOffset?_eq (h : row < layout.height) :
    ∃ start : UInt64, layout.rowOffset? row = some start ∧
      start.toNat = layout.rowStart row.toNat ∧
      (start + layout.width.toUInt64).toNat =
        layout.rowStart row.toNat + layout.width.toNat := by
  have hbound := layout.rowStart_lt (UInt32.lt_iff_toNat_lt.mp h)
  have hstart : ((layout.storedRow row).toUInt64 * layout.pitch).toNat =
      layout.rowStart row.toNat := by
    rw [UInt64.toNat_mul, UInt32.toNat_toUInt64, layout.toNat_storedRow h]
    exact Nat.mod_eq_of_lt (Nat.lt_of_le_of_lt (Nat.le_add_right _ _) hbound)
  refine ⟨_, if_pos h, hstart, ?_⟩
  rw [UInt64.toNat_add, hstart, UInt32.toNat_toUInt64]
  exact Nat.mod_eq_of_lt hbound

/-- What is read of a row are its visible bytes, if the plane has them. -/
theorem row?_eq (h : row < layout.height) :
    layout.row? plane row =
      if layout.rowStart row.toNat + layout.width.toNat ≤ plane.size then
        some (plane.extract (layout.rowStart row.toNat)
          (layout.rowStart row.toNat + layout.width.toNat))
      else none := by
  obtain ⟨start, hoffset, hstart, hstop⟩ := layout.rowOffset?_eq h
  have hle : start ≤ start + layout.width.toUInt64 := by
    rw [UInt64.le_iff_toNat_le, hstart, hstop]
    exact Nat.le_add_right _ _
  simp only [row?, hoffset, section?, hstart, hstop, hle, true_and]

/-- Below the image there are no rows. -/
theorem row?_eq_none (h : ¬ row < layout.height) : layout.row? plane row = none := by
  simp only [row?, rowOffset?, if_neg h]

/-- A plane with the bytes that its layout needs has every row. -/
theorem row?_eq_some (h : row < layout.height) (hlong : layout.need ≤ plane.size) :
    layout.row? plane row =
      some (plane.extract (layout.rowStart row.toNat)
        (layout.rowStart row.toNat + layout.width.toNat)) := by
  have hwithin := layout.rowStart_add_width_le (UInt32.lt_iff_toNat_lt.mp h)
  rw [layout.row?_eq h, if_pos (Nat.le_trans hwithin hlong)]

/-! ## The other order of rows -/

/-- The layout with its rows stored in the other order. -/
def flipped : PlaneLayout := { layout with stride := -layout.stride }

/-- Only the least stride has no counterpart among the words. -/
theorem toInt_stride_flipped (hmin : layout.stride ≠ Int32.minValue) :
    layout.flipped.stride.toInt = -layout.stride.toInt := by
  have hne : layout.stride.toInt ≠ -2 ^ 31 := by
    intro heq
    exact hmin (Int32.toInt_inj.mp (heq.trans Int32.toInt_minValue.symm))
  have hlow : -2 ^ 31 ≤ layout.stride.toInt := Int32.le_toInt layout.stride
  have hhigh : layout.stride.toInt < 2 ^ 31 := Int32.toInt_lt layout.stride
  rw [flipped, Int32.toInt_neg]
  exact Int.bmod_eq_of_le (by omega) (by omega)

/-- The rows of the flipped layout are those of the layout, from the last to the first. -/
theorem rowStart_flipped (hzero : layout.stride ≠ 0) (hmin : layout.stride ≠ Int32.minValue)
    {row : Nat} (h : row < layout.height.toNat) :
    layout.flipped.rowStart row = layout.rowStart (layout.height.toNat - 1 - row) := by
  have hflipped := layout.toInt_stride_flipped hmin
  have hstride : layout.stride.toInt ≠ 0 := fun heq => hzero (Int32.toInt_inj.mp heq)
  have hpitch : layout.flipped.pitch.toNat = layout.pitch.toNat := by
    rw [toNat_pitch, toNat_pitch, hflipped, Int.natAbs_neg]
    rfl
  have hstored : layout.flipped.storedIndex row =
      layout.storedIndex (layout.height.toNat - 1 - row) := by
    have hheight : layout.flipped.height = layout.height := rfl
    unfold storedIndex
    rw [hflipped, hheight]
    split <;> split <;> omega
  rw [rowStart, rowStart, hpitch, hstored]

theorem row?_flipped (hzero : layout.stride ≠ 0) (hmin : layout.stride ≠ Int32.minValue)
    (h : row < layout.height) :
    layout.flipped.row? plane row = layout.row? plane (layout.height - 1 - row) := by
  have hmirrored := layout.toNat_mirrored h
  have hrow : row.toNat < layout.height.toNat := UInt32.lt_iff_toNat_lt.mp h
  have hwithin : layout.height - 1 - row < layout.height := by
    rw [UInt32.lt_iff_toNat_lt, hmirrored]
    omega
  rw [layout.flipped.row?_eq h, layout.row?_eq hwithin, hmirrored,
    layout.rowStart_flipped hzero hmin hrow]
  rfl

/-! ## The geometry of a plane -/

/-- A layout needs `pitch * height` bytes, and this is always a word.  Every row of the image
starts where it should and lies within these bytes, apart from all other rows; its offset is
computed without leaving the words; and a plane with these bytes has exactly the rows of the
image, each as wide as the image.  To negate the stride turns the image upside down. -/
theorem rows_exact (layout : PlaneLayout) :
    let width := layout.width.toNat
    let height := layout.height.toNat
    let stride := layout.stride.toInt
    let pitch := max width stride.natAbs
    let stored (row : UInt32) := if stride < 0 then height - 1 - row.toNat else row.toNat
    let start (row : UInt32) := stored row * pitch
    (layout.pitch.toNat = pitch ∧
      layout.requiredLength?.map UInt64.toNat = some (pitch * height) ∧
      ∀ name plane, layout.check name plane ≠ .error .dimensionOverflow) ∧
    (∀ row, row < layout.height →
      (layout.storedRow row).toNat = stored row ∧
      (∃ offset, layout.rowOffset? row = some offset ∧ offset.toNat = start row ∧
        (offset + layout.width.toUInt64).toNat = start row + width) ∧
      start row + width ≤ pitch * height) ∧
    (∀ row other, row < layout.height → other < layout.height → row ≠ other →
      start row + width ≤ start other ∨ start other + width ≤ start row) ∧
    (∀ plane : Array UInt8, pitch * height ≤ plane.size → ∀ row,
      ((layout.row? plane row).isSome ↔ row < layout.height) ∧
      ∀ bytes, layout.row? plane row = some bytes →
        bytes.size = width ∧ bytes = plane.extract (start row) (start row + width)) ∧
    (layout.stride ≠ 0 → layout.stride ≠ Int32.minValue → ∀ plane row, row < layout.height →
      layout.flipped.row? plane row = layout.row? plane (layout.height - 1 - row)) := by
  intro width height stride pitch stored start
  have hpitch : layout.pitch.toNat = pitch := layout.toNat_pitch
  have hneed : layout.need = pitch * height := by rw [need, hpitch]
  have hstart : ∀ row : UInt32, layout.rowStart row.toNat = start row := by
    intro row
    rw [rowStart, hpitch]
    rfl
  have hlt : ∀ {row}, row < layout.height → row.toNat < layout.height.toNat :=
    UInt32.lt_iff_toNat_lt.mp
  refine ⟨⟨hpitch, ?_, ?_⟩, ?_, ?_, ?_, ?_⟩
  · rw [layout.requiredLength?_eq, hneed]
  · intro name plane
    rw [layout.check_eq]
    split <;> simp
  · intro row hrow
    rw [← hstart, ← hneed]
    exact ⟨layout.toNat_storedRow hrow, layout.rowOffset?_eq hrow,
      layout.rowStart_add_width_le (hlt hrow)⟩
  · intro row other hrow hother hne
    rw [← hstart, ← hstart]
    apply layout.rows_disjoint (hlt hrow) (hlt hother)
    exact fun hsame => hne (UInt32.toNat_inj.mp hsame)
  · intro plane hlong row
    rw [← hneed] at hlong
    by_cases hrow : row < layout.height
    · have hread := layout.row?_eq_some hrow hlong
      refine ⟨iff_of_true (by rw [hread]; rfl) hrow, ?_⟩
      intro bytes hbytes
      obtain rfl := Option.some.inj (hread.symm.trans hbytes)
      have hwithin := layout.rowStart_add_width_le (hlt hrow)
      refine ⟨?_, by rw [← hstart]⟩
      rw [Array.size_extract]
      omega
    · rw [layout.row?_eq_none hrow]
      exact ⟨iff_of_false (by simp) hrow, by simp⟩
  · intro hzero hmin plane row hrow
    exact layout.row?_flipped hzero hmin hrow

/-- Three rows of two bytes each, with a byte to spare after each row, the last row first. -/
def bottomUp : PlaneLayout := ⟨2, 3, -3⟩

/-- The plane of the layout above, in which every byte tells its row. -/
def numbered : Array UInt8 := #[3, 3, 0, 2, 2, 0, 1, 1, 0]

/-- The largest plane there is, under the least stride. -/
def largest : PlaneLayout := ⟨4294967295, 4294967295, Int32.minValue⟩

/-- Rows are read from the right place in a plane that is stored upside down, and the end of the
first row of the largest plane is counted in a word. -/
theorem rows_exact_bottomUp :
    bottomUp.row? numbered 0 = some #[1, 1] ∧
      bottomUp.flipped.row? numbered 0 = bottomUp.row? numbered 2 ∧
      ∃ offset, largest.rowOffset? 0 = some offset ∧
        (offset + largest.width.toUInt64).toNat = 4294967295 * 4294967295 := by
  obtain ⟨-, -, -, hread, hflipped⟩ := rows_exact bottomUp
  obtain ⟨-, hoffset, -, -, -⟩ := rows_exact largest
  obtain ⟨hsome, hbytes⟩ := hread numbered (by decide) 0
  obtain ⟨bytes, hfirst⟩ := Option.isSome_iff_exists.mp (hsome.mpr (by decide))
  obtain ⟨-, hextract⟩ := hbytes bytes hfirst
  obtain ⟨-, ⟨offset, hlargest, -, hend⟩, -⟩ := hoffset 0 (by decide)
  refine ⟨hfirst.trans (congrArg some hextract), hflipped (by decide) (by decide) numbered 0
    (by decide), offset, hlargest, hend⟩

end PeerCalls.PlaneLayout
