import FileSpec.Text.Blank

/-!
Path flavors: which characters separate directories and volumes, and which characters
a file name or a path cannot hold.
-/

set_option autoImplicit false

namespace FileSpec

abbrev Path := List Char

structure Flavor where
  separator : Char
  /-- Read as a separator as well; the same character where there is no second one. -/
  altSeparator : Char
  volumeSeparator : Char
  invalidNameChars : List Char
  invalidPathChars : List Char
  hasDriveRoots : Bool

/-- How a user names one of the two built-in flavors, or the one of the host. -/
inductive PathStyle where
  | host
  | posix
  | windows
  deriving DecidableEq, Repr

namespace Flavor

def posix : Flavor where
  separator := '/'
  altSeparator := '/'
  volumeSeparator := '/'
  invalidNameChars := ['\x00', '/']
  invalidPathChars := ['\x00']
  hasDriveRoots := false

def controlChars : List Char :=
  (List.range 32).map Char.ofNat

def windows : Flavor where
  separator := '\\'
  altSeparator := '/'
  volumeSeparator := ':'
  invalidNameChars := ['\x22', '<', '>', '|', ':', '*', '?', '\\', '/'] ++ controlChars
  invalidPathChars := '|' :: controlChars
  hasDriveRoots := true

variable (flavor : Flavor)

/-- The separators without repetition, the primary one first. -/
def separators : List Char :=
  if flavor.altSeparator = flavor.separator then [flavor.separator]
  else [flavor.separator, flavor.altSeparator]

def isSeparator (character : Char) : Bool :=
  character == flavor.separator || character == flavor.altSeparator

/-- Whether a text is empty or consists of neighbouring separators, in the order of `separators`. -/
def isSeparatorText (text : List Char) : Bool :=
  (List.range 3).any fun start => text.isPrefixOf (flavor.separators.drop start)

theorem isSeparator_iff_mem (character : Char) :
    flavor.isSeparator character = true ↔ character ∈ flavor.separators := by
  by_cases same : flavor.altSeparator = flavor.separator <;>
    simp [isSeparator, separators, same]

end Flavor

/-- The host writes paths in the POSIX way. -/
def PathStyle.flavor : PathStyle → Flavor
  | .host => .posix
  | .posix => .posix
  | .windows => .windows

end FileSpec
