import FileSpec.Path.Flavor

/-!
Roots. A root is one separator or, where a flavor has drives, also a drive or a share.
-/

set_option autoImplicit false

namespace FileSpec.Flavor

variable (flavor : Flavor)

def isDriveLetter (character : Char) : Bool :=
  ('A' ≤ character && character ≤ 'Z') || ('a' ≤ character && character ≤ 'z')

/-- A drive is a letter and a colon, and includes one separator that follows. -/
def driveRoot? : Path → Option Path
  | letter :: ':' :: rest =>
      if isDriveLetter letter then
        some (letter :: ':' :: (rest.take 1).filter flavor.isSeparator)
      else none
  | _ => none

/-- The name of a share after a server, with the separator in front; empty if there is no name. -/
def shareAfterServer : Path → Path
  | [] => []
  | separator :: rest =>
      let share := rest.takeWhile fun character => !flavor.isSeparator character
      if share.isEmpty then [] else separator :: share

/-- A share is two separators, a server and, if there is one, a name after one more separator. -/
def shareRoot? : Path → Option Path
  | first :: second :: rest =>
      let server := rest.takeWhile fun character => !flavor.isSeparator character
      if flavor.isSeparator first && flavor.isSeparator second && !server.isEmpty then
        some (first :: second :: server ++ flavor.shareAfterServer (rest.drop server.length))
      else none
  | _ => none

def separatorRoot? : Path → Option Path
  | first :: _ => if flavor.isSeparator first then some [first] else none
  | [] => none

def root? (path : Path) : Option Path :=
  if flavor.hasDriveRoots then
    flavor.driveRoot? path <|> flavor.shareRoot? path <|> flavor.separatorRoot? path
  else flavor.separatorRoot? path

def root (path : Path) : Path :=
  (flavor.root? path).getD []

def isRooted (path : Path) : Bool :=
  !(flavor.root path).isEmpty

def dropRoot (path : Path) : Path :=
  path.drop (flavor.root path).length

end FileSpec.Flavor
