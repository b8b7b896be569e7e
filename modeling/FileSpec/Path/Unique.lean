import FileSpec.Path.Basic
import FileSpec.Path.Numbering
import FileSpec.Text.Decimal

/-!
Paths that are not taken yet: the path itself, or else its first free numbered variant.
-/

set_option autoImplicit false

namespace FileSpec

open Text

structure UniquePath where
  path : Path
  checked : List Path

namespace Flavor

variable (flavor : Flavor)

def numbered (path : Path) (number : Nat) : Path :=
  path.take (path.length - (flavor.fileName path).length) ++ flavor.stem path ++
    ' ' :: '(' :: decimal number ++ ')' :: flavor.extension path

/--
The path if no file has it, else a numbered variant that no file has. A taken path is asked
for twice. `limit` is to be at least the number of files.
-/
def uniquePath (fileExists : Path → Bool) (limit : Nat) (path : Path) : UniquePath :=
  if fileExists path then
    let found := Numbering.firstFree (fun number => fileExists (flavor.numbered path number))
      (limit + 1)
    ⟨flavor.numbered path found.number, path :: path :: found.asked.map (flavor.numbered path)⟩
  else ⟨path, [path]⟩

end Flavor

end FileSpec
