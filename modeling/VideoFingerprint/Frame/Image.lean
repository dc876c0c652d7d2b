import VideoFingerprint.Frame.Plane

/-!
Images as decoders deliver them: one to four channels of bytes, 16-bit words or floating point
samples. For hashing, an image is reduced to one plane of brightness.
-/

namespace VideoFingerprint

/-- The channels of a pixel; the last one of `grayAlpha` and `rgba` is opacity. -/
inductive Channels
  | gray
  | grayAlpha
  | rgb
  | rgba
deriving DecidableEq

def Channels.count : Channels → Nat
  | .gray => 1
  | .grayAlpha => 2
  | .rgb => 3
  | .rgba => 4

/-- The samples of an image, row by row, with the channels of a pixel next to each other. -/
inductive Samples
  | bytes (xs : ByteArray)
  | words (xs : Array UInt16)
  | floats (xs : Array Float32)

namespace Samples

def size : Samples → Nat
  | bytes xs => xs.size
  | words xs => xs.size
  | floats xs => xs.size

/-- A word as a byte: the full range is mapped to the full range, to the nearest byte. -/
def byteOfWord (w : Nat) : Nat := (w + 128) / 257

/-- A floating point sample as a byte: the unit interval is mapped to the full range, to the
nearest byte with a half going up, and values outside are cut off. -/
def byteOfFloat (x : Float32) : Nat :=
  let unit := if x < 0 then 0 else if 1 < x then 1 else x
  Binary64.wholeHalfUp (unit * 255).toFloat

/-- Sample `i` as a byte; past the end it is zero. -/
def byte (i : Nat) : Samples → Nat
  | bytes xs => if h : i < xs.size then xs[i].toNat else 0
  | words xs => byteOfWord (xs.getD i 0).toNat
  | floats xs => byteOfFloat (xs.getD i 0)

end Samples

/-- An image with all its samples. -/
structure Image where
  width : Nat
  height : Nat
  channels : Channels
  samples : Samples
  size_eq : samples.size = width * height * channels.count

namespace Image

/-- The image of the given samples, if their number is right. -/
def ofSamples? (width height : Nat) (channels : Channels) (samples : Samples) : Option Image :=
  if h : samples.size = width * height * channels.count then
    some ⟨width, height, channels, samples, h⟩
  else none

/-- The brightness of a color, in single precision. -/
def brightness (r g b : Nat) : Float :=
  (0.299 * Float32.ofNat r + 0.587 * Float32.ofNat g + 0.114 * Float32.ofNat b).toFloat

/-- The brightness of pixel `i`. Gray bytes are taken as they are; other images go through
colors of one byte for each channel, in which gray counts for all three. -/
def luma (m : Image) (i : Nat) : Float :=
  let sample (c : Nat) : Nat := m.samples.byte (i * m.channels.count + c)
  match m.channels, m.samples with
  | .gray, .bytes _ => Float.ofNat (sample 0)
  | .gray, _ | .grayAlpha, _ => brightness (sample 0) (sample 0) (sample 0)
  | .rgb, _ | .rgba, _ => brightness (sample 0) (sample 1) (sample 2)

def lumaPlane (m : Image) : Plane Float := ⟨m.width, m.height, Vector.ofFn fun i => m.luma i⟩

end Image

end VideoFingerprint
