import Bindmark.Settings.Basic
import Bindmark.Text.Blank

/-!
# Comment markers

The texts of the comments that open and close a region, and reading the
directive string of an opening marker.
-/

namespace Bindmark.Settings

/-- The opening marker of a directive string. -/
def openMarker (s : Settings) (directives : Text) : Text := s.markerWord ++ lit " " ++ directives

def closeMarker (s : Settings) : Text := lit "/" ++ s.markerWord

/-- What follows the marker word at the start of a text: a directive string
    after blanks, or nothing but one blank at most. Any other text is no
    marker. -/
def afterMarkerWord? (word t : Text) : Option (Option Text) :=
  match Text.dropLeading? word t with
  | none => none
  | some [] => some none
  | some [c] => if Text.isBlank c then some none else none
  | some (c :: rest) => if Text.isBlank c then some (some (Text.strip (c :: rest))) else none

/-- The directive string of a comment that is an opening marker. Blanks before
    the marker word are passed over, as many of them as leave a marker. -/
def readMarker? (s : Settings) (comment : Text) : Option Text :=
  let blanks := (comment.takeWhile Text.isBlank).length
  ((List.range (blanks + 1)).reverse.findSome? fun n =>
    afterMarkerWord? s.markerWord (comment.drop n)).join

end Bindmark.Settings
