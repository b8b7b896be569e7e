import FileSpec.Path.Basic

/-!
Shortening a path for display: the file name stays as long as it fits, and what is left out
is marked by an ellipsis.
-/

set_option autoImplicit false

namespace FileSpec

open Text

def leastWidth : Nat := 12

def ellipsis : List Char := ['.', '.', '.']

def undividedStem : Nat := 8

/--
A long name in `width` characters. A long stem keeps its two ends, the first at most one
character longer, beside as much of the extension as leaves room for them; a short stem stays
whole and only the extension is cut.
-/
def shortenParts (width : Nat) (stem extension : Path) : Path :=
  if undividedStem < stem.length then
    let extension := extension.take (width - undividedStem)
    let ends := width - extension.length - ellipsis.length
    stem.take (ends - ends / 2) ++ ellipsis ++ stem.drop (stem.length - ends / 2) ++ extension
  else stem ++ extension.take (width - stem.length)

namespace Flavor

variable (flavor : Flavor)

def shortenName (width : Nat) (name : Path) : Path :=
  if (strip name).length ≤ width then strip name
  else shortenParts width (flavor.stem (strip name)) (flavor.extension (strip name))

def shortenPath (queries : FileQueries) (width : Nat) (path : Path) : Path :=
  let name := flavor.fileName path
  let room := width - name.length - ellipsis.length - 1
  let directory := flavor.directoryName queries path
  if path.length ≤ width then path
  else if name.length == path.length then flavor.shortenName width path
  else if width < name.length then flavor.shortenName width name
  else if 0 < room && room < directory.length then
    directory.take room ++ ellipsis ++ flavor.separator :: name
  else flavor.shortenName width name

def trim (queries : FileQueries) (path? : Option Path) (width : Int) : Path :=
  flavor.shortenPath queries (max leastWidth width.toNat) (strip (path?.getD []))

end Flavor

end FileSpec
