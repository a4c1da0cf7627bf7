import PeerCalls.Media.Plane

/-!
# Video frames

A frame is a planar image: luma `y`, two chroma planes `u` and `v` of half the
size in each direction, rounded up, and maybe an alpha plane.  A frame is valid
when its mandatory planes are there and every plane is as long as its layout
needs; an owned frame keeps of each plane exactly the bytes needed.
-/

namespace PeerCalls

/-- A planar YUV 4:2:0 image with optional alpha. -/
structure VideoFrame where
  width : UInt32
  height : UInt32
  y : Array UInt8
  u : Array UInt8
  v : Array UInt8
  alpha : Option (Array UInt8)
  yStride : Int32
  uStride : Int32
  vStride : Int32
  alphaStride : Int32
  deriving DecidableEq

namespace VideoFrame

/-- Half of a size, rounded up. -/
def halved (size : UInt32) : UInt32 := size / 2 + size % 2

/-- A frame whose strides are the widths of its planes.  A width of 2³¹ or more
is no positive stride any more: the bits of the word are kept. -/
def packed (width height : UInt32) (y u v : Array UInt8) : VideoFrame where
  width := width
  height := height
  y := y
  u := u
  v := v
  alpha := none
  yStride := width.toInt32
  uStride := (halved width).toInt32
  vStride := (halved width).toInt32
  alphaStride := width.toInt32

def withStrides (frame : VideoFrame) (yStride uStride vStride : Int32) : VideoFrame :=
  { frame with yStride, uStride, vStride }

def withAlpha (frame : VideoFrame) (plane : Array UInt8) (stride : Int32) : VideoFrame :=
  { frame with alpha := some plane, alphaStride := stride }

def chromaWidth (frame : VideoFrame) : UInt32 := halved frame.width

def chromaHeight (frame : VideoFrame) : UInt32 := halved frame.height

def yLayout (frame : VideoFrame) : PlaneLayout :=
  ⟨frame.width, frame.height, frame.yStride⟩

def uLayout (frame : VideoFrame) : PlaneLayout :=
  ⟨frame.chromaWidth, frame.chromaHeight, frame.uStride⟩

def vLayout (frame : VideoFrame) : PlaneLayout :=
  ⟨frame.chromaWidth, frame.chromaHeight, frame.vStride⟩

def alphaLayout (frame : VideoFrame) : PlaneLayout :=
  ⟨frame.width, frame.height, frame.alphaStride⟩

/-- The first plane that should hold something and does not. -/
def missingPlane? (frame : VideoFrame) : Option String :=
  if frame.y.isEmpty then some "y plane"
  else if frame.u.isEmpty then some "u plane"
  else if frame.v.isEmpty then some "v plane"
  else if frame.alpha.any Array.isEmpty then some "a plane"
  else none

def checkPlanes (frame : VideoFrame) : Except FrameError Unit :=
  match frame.missingPlane? with
  | some part => .error (.missing part)
  | none => .ok ()

/-- The number of bytes the alpha plane needs; 0 without one. -/
def checkAlpha (frame : VideoFrame) : Except FrameError Nat :=
  match frame.alpha with
  | none => .ok 0
  | some plane => frame.alphaLayout.check "a" plane

/-- The frame with each plane cut to the bytes its layout needs, or the first
fault of the frame. -/
def owned (frame : VideoFrame) : Except FrameError VideoFrame := do
  frame.checkPlanes
  if frame.width = 0 ∨ frame.height = 0 then
    throw (.zeroDimension frame.width frame.height)
  let y ← frame.yLayout.check "y" frame.y
  let u ← frame.uLayout.check "u" frame.u
  let v ← frame.vLayout.check "v" frame.v
  let alpha ← frame.checkAlpha
  return { frame with
    y := frame.y.take y
    u := frame.u.take u
    v := frame.v.take v
    alpha := frame.alpha.map (·.take alpha) }

/-- Whether the frame may be sent or shown. -/
def validate (frame : VideoFrame) : Except FrameError Unit := do
  frame.checkPlanes
  if frame.width = 0 ∨ frame.height = 0 then
    throw (.zeroDimension frame.width frame.height)
  let _ ← frame.yLayout.check "y" frame.y
  let _ ← frame.uLayout.check "u" frame.u
  let _ ← frame.vLayout.check "v" frame.v
  let _ ← frame.checkAlpha

end VideoFrame

end PeerCalls
