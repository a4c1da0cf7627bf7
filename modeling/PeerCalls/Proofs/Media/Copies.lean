import PeerCalls.Proofs.Media.Owned
import PeerCalls.Proofs.Media.Rows

/-!
# What an owned frame keeps

Owning a frame cuts each plane to the bytes that its layout needs, and audio to the samples that
it covers.  The rows of an image lie within these bytes, so every row reads the same before and
after.  What was cut once has nothing more to lose: an owned frame is valid, and owning it again
gives it back as it is.

A plane is measured twice on the way, once to validate the frame and once to cut it.  Both go by
the same layout, so what is said of `Valid` and `cut` holds of the two: `valid_iff` and `cut_eq`
put the sizes of the frame into numbers.
-/

namespace PeerCalls

/-- The bytes that a plane needs, by the sizes of what it shows and by its stride. -/
def planeBytes (width height : Nat) (stride : Int32) : Nat :=
  max width stride.toInt.natAbs * height

namespace PlaneLayout

variable {layout : PlaneLayout} {plane : Array UInt8}

theorem need_eq (layout : PlaneLayout) :
    layout.need = planeBytes layout.width.toNat layout.height.toNat layout.stride := by
  rw [need, toNat_pitch, planeBytes]

/-- The rows of a plane are read from the bytes that its layout needs. -/
theorem row?_take (hlong : layout.need ≤ plane.size) (row : UInt32) :
    layout.row? (plane.take layout.need) row = layout.row? plane row := by
  have hkept : layout.need ≤ (plane.take layout.need).size := by
    rw [Array.take_eq_extract, Array.size_extract]
    omega
  by_cases hrow : row < layout.height
  · have hwithin := layout.rowStart_add_width_le (UInt32.lt_iff_toNat_lt.mp hrow)
    rw [layout.row?_eq_some hrow hkept, layout.row?_eq_some hrow hlong, Array.take_eq_extract,
      Array.extract_extract, Nat.zero_add, Nat.zero_add, Nat.min_eq_left hwithin]
  · rw [layout.row?_eq_none hrow, layout.row?_eq_none hrow]

theorem holds_iff : layout.Holds plane ↔ plane ≠ #[] ∧ layout.need ≤ plane.size := by
  have hfull : plane.isEmpty = false ↔ plane ≠ #[] := by simp
  exact ⟨fun h => ⟨hfull.mp h.nonempty, h.long⟩, fun h => ⟨hfull.mpr h.1, h.2⟩⟩

end PlaneLayout

namespace VideoFrame

variable (frame : VideoFrame)

/-- The bytes that the planes of the size of the image need at this stride. -/
def fullBytes (stride : Int32) : Nat :=
  planeBytes frame.width.toNat frame.height.toNat stride

/-- The bytes that the planes of half the size need at this stride, rounded up. -/
def chromaBytes (stride : Int32) : Nat :=
  planeBytes ((frame.width.toNat + 1) / 2) ((frame.height.toNat + 1) / 2) stride

theorem need_chroma (stride : Int32) :
    (PlaneLayout.mk frame.chromaWidth frame.chromaHeight stride).need =
      frame.chromaBytes stride := by
  rw [PlaneLayout.need_eq, chromaBytes, ← toNat_halved, ← toNat_halved]
  rfl

/-- What is kept of a frame, in numbers. -/
theorem cut_eq : frame.cut =
    { frame with
      y := frame.y.take (frame.fullBytes frame.yStride)
      u := frame.u.take (frame.chromaBytes frame.uStride)
      v := frame.v.take (frame.chromaBytes frame.vStride)
      alpha := frame.alpha.map (·.take (frame.fullBytes frame.alphaStride)) } := by
  have hu : frame.uLayout.need = frame.chromaBytes frame.uStride := frame.need_chroma _
  have hv : frame.vLayout.need = frame.chromaBytes frame.vStride := frame.need_chroma _
  rw [cut, hu, hv, PlaneLayout.need_eq, PlaneLayout.need_eq]
  rfl

/-- What validation asks of a frame, in numbers. -/
theorem valid_iff : frame.Valid ↔
    (frame.y ≠ #[] ∧ frame.u ≠ #[] ∧ frame.v ≠ #[] ∧ frame.alpha ≠ some #[]) ∧
    (frame.width ≠ 0 ∧ frame.height ≠ 0) ∧
    frame.fullBytes frame.yStride ≤ frame.y.size ∧
    frame.chromaBytes frame.uStride ≤ frame.u.size ∧
    frame.chromaBytes frame.vStride ≤ frame.v.size ∧
    ∀ plane, frame.alpha = some plane → frame.fullBytes frame.alphaStride ≤ plane.size := by
  have hy : frame.yLayout.Holds frame.y ↔
      frame.y ≠ #[] ∧ frame.fullBytes frame.yStride ≤ frame.y.size := by
    rw [PlaneLayout.holds_iff, PlaneLayout.need_eq]
    rfl
  have hu : frame.uLayout.Holds frame.u ↔
      frame.u ≠ #[] ∧ frame.chromaBytes frame.uStride ≤ frame.u.size := by
    rw [PlaneLayout.holds_iff, ← frame.need_chroma]
    rfl
  have hv : frame.vLayout.Holds frame.v ↔
      frame.v ≠ #[] ∧ frame.chromaBytes frame.vStride ≤ frame.v.size := by
    rw [PlaneLayout.holds_iff, ← frame.need_chroma]
    rfl
  have halpha : (∀ plane, frame.alpha = some plane → frame.alphaLayout.Holds plane) ↔
      frame.alpha ≠ some #[] ∧
        ∀ plane, frame.alpha = some plane → frame.fullBytes frame.alphaStride ≤ plane.size := by
    have hholds : ∀ plane, frame.alphaLayout.Holds plane ↔
        plane ≠ #[] ∧ frame.fullBytes frame.alphaStride ≤ plane.size := by
      intro plane
      rw [PlaneLayout.holds_iff, PlaneLayout.need_eq]
      rfl
    cases frame.alpha with
    | none => simp
    | some plane => simp [hholds]
  constructor
  · intro h
    obtain ⟨hyfull, hylong⟩ := hy.mp h.y
    obtain ⟨hufull, hulong⟩ := hu.mp h.u
    obtain ⟨hvfull, hvlong⟩ := hv.mp h.v
    obtain ⟨hafull, halong⟩ := halpha.mp h.alpha
    exact ⟨⟨hyfull, hufull, hvfull, hafull⟩, ⟨h.width, h.height⟩, hylong, hulong, hvlong, halong⟩
  · rintro ⟨⟨hyfull, hufull, hvfull, hafull⟩, ⟨hwidth, hheight⟩, hylong, hulong, hvlong, halong⟩
    exact ⟨hwidth, hheight, hy.mpr ⟨hyfull, hylong⟩, hu.mpr ⟨hufull, hulong⟩,
      hv.mpr ⟨hvfull, hvlong⟩, halpha.mpr ⟨hafull, halong⟩⟩

/-- Cutting a frame leaves its layouts alone, and so it cuts nothing more the second time. -/
theorem cut_cut : frame.cut.cut = frame.cut := by
  have hlayouts : frame.cut.yLayout = frame.yLayout ∧ frame.cut.uLayout = frame.uLayout ∧
      frame.cut.vLayout = frame.vLayout ∧ frame.cut.alphaLayout = frame.alphaLayout :=
    ⟨rfl, rfl, rfl, rfl⟩
  rw [cut, hlayouts.1, hlayouts.2.1, hlayouts.2.2.1, hlayouts.2.2.2]
  simp [cut, Function.comp_def]

/-- Every row of every plane reads the same in both frames. -/
structure SameRows (frame other : VideoFrame) : Prop where
  y : ∀ row, frame.yLayout.row? frame.y row = other.yLayout.row? other.y row
  u : ∀ row, frame.uLayout.row? frame.u row = other.uLayout.row? other.u row
  v : ∀ row, frame.vLayout.row? frame.v row = other.vLayout.row? other.v row
  alpha : ∀ row, (frame.alpha.bind fun plane => frame.alphaLayout.row? plane row) =
    other.alpha.bind fun plane => other.alphaLayout.row? plane row

theorem Valid.sameRows_cut {frame : VideoFrame} (h : frame.Valid) : frame.cut.SameRows frame where
  y := PlaneLayout.row?_take h.y.long
  u := PlaneLayout.row?_take h.u.long
  v := PlaneLayout.row?_take h.v.long
  alpha row := by
    have hcut : frame.cut.alpha = frame.alpha.map (·.take frame.alphaLayout.need) := rfl
    rw [hcut]
    cases halpha : frame.alpha with
    | none => rfl
    | some plane => exact PlaneLayout.row?_take (h.alpha plane halpha).long row

end VideoFrame

namespace AudioFrame

theorem cut_cut (frame : AudioFrame) : frame.cut.cut = frame.cut := by
  have hneed : frame.cut.need = frame.need := rfl
  rw [cut, hneed]
  simp [cut]

end AudioFrame

/-! ## Owning frames -/

/-- Where a frame is either refused with a fault or found valid and cut, by whoever looks at it,
to own it fails as to validate it does, and what is owned is the frame as it was cut. -/
theorem owned_iff_of_cases {Frame : Type} {valid : Prop} {admits : FrameError → Prop}
    {validated : Except FrameError Unit} {owned : Except FrameError Frame} {cut : Frame}
    (h : (¬ valid ∧ ∃ fault, admits fault ∧ validated = .error fault ∧ owned = .error fault) ∨
      (valid ∧ validated = .ok () ∧ owned = .ok cut)) :
    (validated = .ok () ↔ valid) ∧ (∀ fault, owned = .error fault ↔ validated = .error fault) ∧
      ((∃ kept, owned = .ok kept) ↔ validated = .ok ()) ∧
      ∀ kept, owned = .ok kept → valid ∧ kept = cut := by
  rcases h with ⟨hfails, fault, -, rfl, rfl⟩ | ⟨hvalid, rfl, rfl⟩
  · simp [hfails]
  · simp [hvalid, eq_comm]

/-- A frame is owned exactly if it is valid, and refused for the same fault otherwise.  A video
frame is valid exactly if its planes are there, its sizes are not zero and each plane has the bytes
for its rows, chroma planes at half the size.  A frame that is owned has the bytes or samples that
are needed, and what is owned are the first of them, as many as are needed; every row reads as
before; and whoever owns the frame again gets the same. -/
theorem owned_preserves :
    (∀ frame : VideoFrame,
      (frame.validate = .ok () ↔
        (frame.y ≠ #[] ∧ frame.u ≠ #[] ∧ frame.v ≠ #[] ∧ frame.alpha ≠ some #[]) ∧
        (frame.width ≠ 0 ∧ frame.height ≠ 0) ∧
        frame.fullBytes frame.yStride ≤ frame.y.size ∧
        frame.chromaBytes frame.uStride ≤ frame.u.size ∧
        frame.chromaBytes frame.vStride ≤ frame.v.size ∧
        ∀ plane, frame.alpha = some plane → frame.fullBytes frame.alphaStride ≤ plane.size) ∧
      (∀ fault, frame.owned = .error fault ↔ frame.validate = .error fault) ∧
      ((∃ owned, frame.owned = .ok owned) ↔ frame.validate = .ok ()) ∧
      ∀ owned, frame.owned = .ok owned →
        owned = { frame with
          y := frame.y.take (frame.fullBytes frame.yStride)
          u := frame.u.take (frame.chromaBytes frame.uStride)
          v := frame.v.take (frame.chromaBytes frame.vStride)
          alpha := frame.alpha.map (·.take (frame.fullBytes frame.alphaStride)) } ∧
        owned.SameRows frame ∧ owned.validate = .ok () ∧ owned.owned = .ok owned) ∧
    ∀ (frame : AudioFrame) (config : Config),
      (∀ fault, frame.owned config = .error fault ↔ frame.validate config = .error fault) ∧
      ((∃ owned, frame.owned config = .ok owned) ↔ frame.validate config = .ok ()) ∧
      ∀ owned, frame.owned config = .ok owned →
        frame.sampleCount.toNat * frame.channels.toNat ≤ frame.pcm.size ∧
        owned = { frame with
          pcm := frame.pcm.take (frame.sampleCount.toNat * frame.channels.toNat) } ∧
        owned.pcm.size = frame.sampleCount.toNat * frame.channels.toNat ∧
        owned.validate config = .ok () ∧ owned.owned config = .ok owned := by
  constructor
  · intro frame
    obtain ⟨hvalid, herror, hok, howned⟩ := owned_iff_of_cases frame.owned_cases
    refine ⟨hvalid.trans frame.valid_iff, herror, hok, ?_⟩
    intro owned h
    obtain ⟨hframe, rfl⟩ := howned owned h
    rcases frame.cut.owned_cases with ⟨hfails, -⟩ | ⟨-, hvalidate, hagain⟩
    · exact absurd hframe.cut hfails
    · rw [frame.cut_cut] at hagain
      exact ⟨frame.cut_eq, hframe.sameRows_cut, hvalidate, hagain⟩
  · intro frame config
    obtain ⟨-, herror, hok, howned⟩ := owned_iff_of_cases (frame.owned_cases config)
    refine ⟨herror, hok, ?_⟩
    intro owned h
    obtain ⟨hframe, rfl⟩ := howned owned h
    have hsize : frame.cut.pcm.size = frame.need := (take_of_le hframe.need_pos hframe.long).2
    rcases frame.cut.owned_cases config with ⟨hfails, -⟩ | ⟨-, hvalidate, hagain⟩
    · exact absurd hframe.cut hfails
    · rw [frame.cut_cut] at hagain
      exact ⟨hframe.long, rfl, hsize, hvalidate, hagain⟩

/-- An image of odd sizes, two of its planes upside down and all of them with bytes to spare. -/
def VideoFrame.roomy : VideoFrame :=
  ⟨3, 3, .replicate 13 1, .replicate 5 2, .replicate 7 3, some (.replicate 17 4), -4, 2, -3, 5⟩

/-- The spare bytes are gone, and so is the spare sample of the shortest sound; nothing else is. -/
theorem owned_preserves_roomy :
    (∃ owned, VideoFrame.roomy.owned = .ok owned ∧
      [owned.y.size, owned.u.size, owned.v.size] = [12, 4, 6] ∧
      owned.alpha.map Array.size = some 15 ∧
      owned.SameRows .roomy ∧ owned.owned = .ok owned) ∧
    ∃ owned, AudioFrame.click.owned .standard = .ok owned ∧ owned.pcm.size = 20 ∧
      owned.owned .standard = .ok owned := by
  obtain ⟨-, -, hvideo, hkept⟩ := owned_preserves.1 .roomy
  obtain ⟨-, haudio, hcut⟩ := owned_preserves.2 .click .standard
  obtain ⟨owned, howned⟩ := hvideo.mpr rfl
  obtain ⟨heq, hrows, -, hagain⟩ := hkept owned howned
  obtain ⟨sound, hsound⟩ := haudio.mpr rfl
  obtain ⟨-, -, hsize, -, hsame⟩ := hcut sound hsound
  refine ⟨⟨owned, howned, ?_, ?_, hrows, hagain⟩, sound, hsound, hsize.trans rfl, hsame⟩
  · rw [heq]
    rfl
  · rw [heq]
    rfl

end PeerCalls
