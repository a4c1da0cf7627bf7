import Mathlib.Algebra.Group.Int.Defs
import Mathlib.Algebra.Group.Nat.Defs
import PeerCalls.Proofs.Media.Owned
import PeerCalls.Proofs.Media.Rows

/-!
# Packed frames

A packed frame gives every plane its width as the stride.  The stride is a signed word and the
width is not: from 2³¹ on, the bits of a width are those of a negative stride.  Its size is then
2³² less the width, which is at most the width, so the pitch is the width all the same, and the
plane needs as many bytes as it has points.  What goes wrong is the order of the rows: the plane
counts as stored bottom-up.

Luma and alpha have the width of the image.  Chroma has half of it, rounded up, which reaches 2³¹
for the greatest width only.
-/

namespace PeerCalls

namespace PlaneLayout

/-- The layout of a plane whose stride is its width, as far as a signed word holds it. -/
def ofWidth (width height : UInt32) : PlaneLayout := ⟨width, height, width.toInt32⟩

/-- The rows of a plane of this size lie one after the other without a gap, the first row of the
image first. -/
structure TopDown (layout : PlaneLayout) (width height : Nat) : Prop where
  pitch : layout.pitch.toNat = width
  upright : layout.isBottomUp = false
  required : layout.requiredLength?.map UInt64.toNat = some (width * height)
  rows : ∀ plane : Array UInt8, plane.size = width * height → ∀ row, row < layout.height →
    layout.row? plane row = some (plane.extract (row.toNat * width) ((row.toNat + 1) * width))

/-- The rows of a plane of this size lie one after the other without a gap, the first row of the
image first up to a width of 2³¹, and the last row first from there on. -/
structure Gapless (layout : PlaneLayout) (width height : Nat) : Prop where
  pitch : layout.pitch.toNat = width
  bottomUp_iff : layout.isBottomUp = true ↔ 2 ^ 31 ≤ width
  required : layout.requiredLength?.map UInt64.toNat = some (width * height)
  rows : ∀ plane : Array UInt8, plane.size = width * height → ∀ row, row < layout.height →
    let stored := if width < 2 ^ 31 then row.toNat else height - 1 - row.toNat
    layout.row? plane row = some (plane.extract (stored * width) ((stored + 1) * width))

/-- The bits of a width from 2³¹ on are those of a negative stride. -/
theorem toInt_stride_ofWidth (width : UInt32) :
    width.toInt32.toInt = if width.toNat < 2 ^ 31 then (width.toNat : Int)
      else width.toNat - 2 ^ 32 := by
  have hbits : width.toInt32.toInt = width.toBitVec.toInt := rfl
  have hnat : width.toBitVec.toNat = width.toNat := rfl
  rw [hbits, BitVec.toInt_eq_toNat_cond, hnat]
  split <;> split <;> omega

theorem gapless_ofWidth (width height : UInt32) :
    (ofWidth width height).Gapless width.toNat height.toNat := by
  have hbound := width.toNat_lt
  have hstride : (ofWidth width height).stride.toInt = _ := toInt_stride_ofWidth width
  -- the size of the stride is the width, or what is missing from the width to 2³²
  have hpitch : (ofWidth width height).pitch.toNat = width.toNat := by
    have hwidth : (ofWidth width height).width = width := rfl
    rw [toNat_pitch, hwidth, hstride]
    split <;> omega
  have hnegative : (ofWidth width height).stride.toInt < 0 ↔ 2 ^ 31 ≤ width.toNat := by
    rw [hstride]
    split <;> omega
  have hneed : (ofWidth width height).need = width.toNat * height.toNat := by
    rw [need, hpitch]
    rfl
  refine ⟨hpitch, (isBottomUp_iff _).trans hnegative, ?_, ?_⟩
  · rw [requiredLength?_eq, hneed]
  · intro plane hplane row hrow stored
    have hstart : (ofWidth width height).rowStart row.toNat = stored * width.toNat := by
      unfold rowStart storedIndex
      simp only [hnegative, hpitch, ← Nat.not_lt, ite_not]
      rfl
    have hread := row?_eq_some _ hrow (Nat.le_of_eq (hneed.trans hplane.symm))
    rw [hread, hstart, Nat.succ_mul]
    rfl

/-- A plane without gaps is top-down if its width is a positive stride. -/
theorem Gapless.topDown_iff {layout : PlaneLayout} {width height : Nat}
    (h : layout.Gapless width height) : layout.TopDown width height ↔ width < 2 ^ 31 := by
  constructor
  · intro htop
    refine Nat.not_le.mp fun hwide => ?_
    have hbottom := h.bottomUp_iff.mpr hwide
    rw [htop.upright] at hbottom
    cases hbottom
  · intro hnarrow
    refine ⟨h.pitch, ?_, h.required, ?_⟩
    · exact Bool.eq_false_iff.mpr fun hbottom =>
        Nat.not_le.mpr hnarrow (h.bottomUp_iff.mp hbottom)
    · intro plane hplane row hrow
      simpa only [if_pos hnarrow] using h.rows plane hplane row hrow

/-- In a plane of such a width with two rows or more, the first row of the image is read where the
last one lies. -/
theorem Gapless.misread {layout : PlaneLayout} {width height : Nat}
    (h : layout.Gapless width height) (hwide : 2 ^ 31 ≤ width) (htall : 2 ≤ height)
    (hrow : 0 < layout.height) :
    ∃ plane : Array UInt8, plane.size = width * height ∧
      layout.row? plane 0 ≠ some (plane.extract 0 width) := by
  -- the first row of the buffer is dark, all others are bright
  let last := height - 1
  let plane : Array UInt8 := .replicate width 0 ++ .replicate (last * width) 1
  have hheight : width * height = (last + 1) * width := by
    rw [Nat.mul_comm, Nat.sub_add_cancel (by omega : 1 ≤ height)]
  have hsize : plane.size = (last + 1) * width := by
    rw [Array.size_append, Array.size_replicate, Array.size_replicate, Nat.succ_mul, Nat.add_comm]
  have hlater : width ≤ last * width := Nat.le_mul_of_pos_left _ (by omega)
  have hend : (last + 1) * width = last * width + width := Nat.succ_mul _ _
  have hdark : (plane.extract 0 width)[0]? = some 0 := by
    rw [Array.getElem?_extract, hsize, hend, if_pos (by omega), Array.getElem?_append_left]
    · simp only [Array.getElem?_replicate]
      exact if_pos (by omega)
    · rw [Array.size_replicate]
      omega
  have hbright : (plane.extract (last * width) ((last + 1) * width))[0]? = some 1 := by
    rw [Array.getElem?_extract, hsize, hend, if_pos (by omega), Array.getElem?_append_right]
    · simp only [Array.getElem?_replicate, Array.size_replicate]
      exact if_pos (by omega)
    · rw [Array.size_replicate]
      omega
  have hread := h.rows plane (hsize.trans hheight.symm) 0 hrow
  simp only [if_neg (Nat.not_lt.mpr hwide)] at hread
  refine ⟨plane, hsize.trans hheight.symm, fun hsame => ?_⟩
  have hrows : plane.extract (last * width) ((last + 1) * width) = plane.extract 0 width :=
    Option.some.inj (hread.symm.trans hsame)
  rw [hrows, hdark] at hbright
  cases hbright

end PlaneLayout

namespace VideoFrame

/-- The layouts of the planes that have the size of the image. -/
def fullLayouts (frame : VideoFrame) : List PlaneLayout := [frame.yLayout, frame.alphaLayout]

/-- The layouts of the planes that have half the size of the image. -/
def halfLayouts (frame : VideoFrame) : List PlaneLayout := [frame.uLayout, frame.vLayout]

/-- All planes are top-down: luma and alpha in the size of the image, and chroma in half of it,
rounded up. -/
structure TopDown (frame : VideoFrame) : Prop where
  full : ∀ layout ∈ frame.fullLayouts, layout.TopDown frame.width.toNat frame.height.toNat
  half : ∀ layout ∈ frame.halfLayouts,
    layout.TopDown ((frame.width.toNat + 1) / 2) ((frame.height.toNat + 1) / 2)

section Packed

variable {width height : UInt32} {y u v : Array UInt8} {layout : PlaneLayout}

theorem eq_ofWidth_of_mem_full (h : layout ∈ (packed width height y u v).fullLayouts) :
    layout = .ofWidth width height := by
  simp only [fullLayouts, List.mem_cons, List.not_mem_nil, or_false] at h
  rcases h with rfl | rfl <;> rfl

theorem eq_ofWidth_of_mem_half (h : layout ∈ (packed width height y u v).halfLayouts) :
    layout = .ofWidth (halved width) (halved height) := by
  simp only [halfLayouts, List.mem_cons, List.not_mem_nil, or_false] at h
  rcases h with rfl | rfl <;> rfl

theorem gapless_of_mem_full (h : layout ∈ (packed width height y u v).fullLayouts) :
    layout.Gapless width.toNat height.toNat := by
  rw [eq_ofWidth_of_mem_full h]
  exact PlaneLayout.gapless_ofWidth width height

theorem gapless_of_mem_half (h : layout ∈ (packed width height y u v).halfLayouts) :
    layout.Gapless ((width.toNat + 1) / 2) ((height.toNat + 1) / 2) := by
  rw [eq_ofWidth_of_mem_half h, ← toNat_halved width, ← toNat_halved height]
  exact PlaneLayout.gapless_ofWidth _ _

end Packed

/-- The planes of a packed frame have no gaps, and chroma planes are half the size, rounded up.
Luma and alpha are top-down for widths below 2³¹, chroma for all widths but the greatest; in the
other cases the rows are read in the opposite order, and nothing else is different.  So the frame
is top-down for widths below 2³¹ only. -/
theorem packed_topDown_iff (width height : UInt32) (y u v : Array UInt8) :
    (∀ layout ∈ (packed width height y u v).fullLayouts,
      layout.Gapless width.toNat height.toNat ∧
      (layout.TopDown width.toNat height.toNat ↔ width.toNat < 2 ^ 31)) ∧
    (∀ layout ∈ (packed width height y u v).halfLayouts,
      layout.Gapless ((width.toNat + 1) / 2) ((height.toNat + 1) / 2) ∧
      (layout.TopDown ((width.toNat + 1) / 2) ((height.toNat + 1) / 2) ↔
        width.toNat ≠ 2 ^ 32 - 1)) ∧
    ((packed width height y u v).TopDown ↔ width.toNat < 2 ^ 31) := by
  have hbound := width.toNat_lt
  have hfull : ∀ layout ∈ (packed width height y u v).fullLayouts,
      layout.TopDown width.toNat height.toNat ↔ width.toNat < 2 ^ 31 :=
    fun layout hmem => (gapless_of_mem_full hmem).topDown_iff
  have hhalf : ∀ layout ∈ (packed width height y u v).halfLayouts,
      layout.TopDown ((width.toNat + 1) / 2) ((height.toNat + 1) / 2) ↔
        width.toNat ≠ 2 ^ 32 - 1 := by
    intro layout hmem
    rw [(gapless_of_mem_half hmem).topDown_iff]
    omega
  refine ⟨fun layout hmem => ⟨gapless_of_mem_full hmem, hfull layout hmem⟩,
    fun layout hmem => ⟨gapless_of_mem_half hmem, hhalf layout hmem⟩, fun htop => ?_,
    fun hnarrow => ⟨fun layout hmem => ?_, fun layout hmem => ?_⟩⟩
  · exact (hfull _ (List.mem_cons_self ..)).mp (htop.full _ (List.mem_cons_self ..))
  · exact (hfull layout hmem).mpr hnarrow
  · exact (hhalf layout hmem).mpr (by omega)

/-- An image of 2³¹ by 2 points: its luma and its alpha plane count as stored bottom-up, and there
are bytes in which the first row of the image is not found where it lies. -/
theorem upsideDown_at_wide :
    ¬ (packed 2147483648 2 #[] #[] #[]).TopDown ∧
      (packed 2147483648 2 #[] #[] #[]).yLayout.isBottomUp = true ∧
      (packed 2147483648 2 #[] #[] #[]).alphaLayout.isBottomUp = true ∧
      ∃ plane : Array UInt8, plane.size = 2147483648 * 2 ∧
        (packed 2147483648 2 #[] #[] #[]).yLayout.row? plane 0 ≠
          some (plane.extract 0 2147483648) := by
  have hgapless : (packed 2147483648 2 #[] #[] #[]).yLayout.Gapless 2147483648 2 :=
    gapless_of_mem_full (List.mem_cons_self ..)
  refine ⟨fun htop => ?_, rfl, rfl, hgapless.misread (by decide) (by decide) (by decide)⟩
  have hupright := (htop.full _ (List.mem_cons_self ..)).upright
  cases hupright

end VideoFrame

end PeerCalls
