import AccessibleMarkdown.Audit.AltText
import AccessibleMarkdown.Decimal.Fixed

/-!
Contrast of images, estimated by the spread of their luminance. What an image file holds comes from
a probe; a probe that fails is reported, and the walk goes on.
-/

namespace AccessibleMarkdown.Audit

inductive ProbeError
  | notFound (path : String)
  | unreadable (path reason : String)
  | undecodable (path reason : String)
  | noPixels (path : String)
  deriving DecidableEq, Repr

def ProbeError.message : ProbeError → String
  | notFound path => "image not found: " ++ path
  | unreadable path reason => "failed to read " ++ path ++ ": " ++ reason
  | undecodable path reason => "failed to decode " ++ path ++ ": " ++ reason
  | noPixels path => "image has no pixels: " ++ path

/-- The luminance spread of the image at a source. -/
abbrev Probe := String → Except ProbeError Float

/-- The rule and message for an image, from what the probe says about its source. -/
def contrastVerdict (probe : Probe) (src : Option String) : String × String :=
  match src with
  | none | some "" => ("contrast-no-src", "Found an image with no src attribute")
  | some src =>
    match probe src with
    | .ok spread =>
      ("contrast-estimate",
        "Estimated contrast of the image(" ++ src ++ ") is " ++ Decimal.twoPlaces spread.toBits)
    | .error (.notFound _) =>
      ("contrast-image-missing", "No image found. Check the path for " ++ src)
    | .error err =>
      ("contrast-image-unreadable", "Image " ++ src ++ " could not be read: " ++ err.message)

def reportContrast (probe : Probe) : Visitor Diagnostics := fun _ e cx (t, ds) =>
  let (rule, message) := contrastVerdict probe (e.get? "src")
  ((t, ds.push { rule, criterion := some .contrastMinimum, message, path := cx.path }), .stop)

def contrastReport (probe : Probe) : Visitor Diagnostics := .only .img (reportContrast probe)

end AccessibleMarkdown.Audit
