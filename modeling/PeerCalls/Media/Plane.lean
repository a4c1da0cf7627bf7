import PeerCalls.Media.FrameError

/-!
# Geometry of one plane of a planar image

Rows start `max width |stride|` bytes apart.  A negative stride means that the
rows are stored bottom-up: the first row of the buffer is the last row of the
image.  Lengths and offsets are computed in 64-bit machine words; the product
that could leave them is checked.
-/

namespace PeerCalls

/-- The product of two machine words, if it is a machine word. -/
def checkedProduct (first second : UInt64) : Option UInt64 :=
  if first.toNat * second.toNat < UInt64.size then some (first * second) else none

/-- The items of `items` from position `start` up to position `stop`, if all of
them are there. -/
def section? {α : Type} (items : Array α) (start stop : UInt64) : Option (Array α) :=
  if start ≤ stop ∧ stop.toNat ≤ items.size then
    some (items.extract start.toNat stop.toNat)
  else
    none

/-- The size of one plane and the distance of its rows. -/
structure PlaneLayout where
  width : UInt32
  height : UInt32
  stride : Int32
  deriving DecidableEq

namespace PlaneLayout

/-- Bytes from the start of one row to the start of the next. -/
def pitch (layout : PlaneLayout) : UInt64 :=
  max layout.width.toUInt64 (UInt64.ofNat layout.stride.toInt.natAbs)

/-- Whether the last row of the image is stored first. -/
def isBottomUp (layout : PlaneLayout) : Bool := layout.stride < 0

/-- The least number of bytes a buffer needs to hold the plane. -/
def requiredLength? (layout : PlaneLayout) : Option UInt64 :=
  checkedProduct layout.pitch layout.height.toUInt64

/-- The position among the stored rows of image row `row`, counted from the top. -/
def storedRow (layout : PlaneLayout) (row : UInt32) : UInt32 :=
  if layout.isBottomUp then layout.height - 1 - row else row

/-- Where image row `row` starts in the buffer. -/
def rowOffset? (layout : PlaneLayout) (row : UInt32) : Option UInt64 :=
  if row < layout.height then some ((layout.storedRow row).toUInt64 * layout.pitch) else none

/-- The visible bytes of image row `row`. -/
def row? (layout : PlaneLayout) (plane : Array UInt8) (row : UInt32) : Option (Array UInt8) :=
  match layout.rowOffset? row with
  | none => none
  | some start => section? plane start (start + layout.width.toUInt64)

/-- The number of bytes the layout needs, if the plane has them. -/
def check (layout : PlaneLayout) (name : String) (plane : Array UInt8) :
    Except FrameError Nat :=
  match layout.requiredLength? with
  | none => .error .dimensionOverflow
  | some required =>
    if plane.size < required.toNat then
      .error (.planeTooShort name plane.size required.toNat)
    else
      .ok required.toNat

end PlaneLayout

end PeerCalls
