/-! The luminance of pixels, and how far it spreads over an image. -/

namespace AccessibleMarkdown.Image

/-- A value on a scale up to `top`, to the nearest one on the scale up to 255. -/
def rescale (value top : Nat) : Nat := (2 * 255 * value + top) / (2 * top)

def grayLuminance (top value : Nat) : UInt8 := UInt8.ofNat (rescale value top)

/--
The luminance of a colour whose samples are on scales up to `top`. The weights follow from the Rec.
709 primaries and the white point D65, and are rounded to twelve places.
-/
def colourLuminance (top red green blue : Nat) : UInt8 :=
  let weighted := 212639005872 * red + 715168678768 * green + 72192315360 * blue
  UInt8.ofNat (rescale weighted (1000000000000 * top))

/-- The arithmetic mean in binary64, summed from left to right. -/
def mean (values : List Float) : Float :=
  values.foldl (· + ·) 0 / Float.ofNat values.length

/-- The population standard deviation of luminances; an image without pixels has none. -/
def spread (pixels : List UInt8) : Option Float :=
  if pixels.isEmpty then none
  else
    let values := pixels.map (·.toFloat)
    let m := mean values
    some (mean (values.map fun v => (v - m) * (v - m))).sqrt

end AccessibleMarkdown.Image
