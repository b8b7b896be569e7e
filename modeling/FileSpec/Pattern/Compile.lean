import FileSpec.Pattern.RegexText
import FileSpec.Pattern.Token
import FileSpec.Text.Printable

/-!
The text of the regular expression for a file specification.
-/

set_option autoImplicit false

namespace FileSpec

open Text

namespace Flavor

variable (flavor : Flavor)

def separatorClass : List Char :=
  '[' :: flavor.separators.flatMap Regex.escape ++ [']']

/-- A member of a class: a character that cannot be shown is written by its code point. -/
def classMember (character : Char) : List Char :=
  if isPrintable character then Regex.escape character
  else '\\' :: 'x' :: hexadecimal 2 character.toNat

def sortedInvalidNameChars : List Char :=
  flavor.invalidNameChars.eraseDups.mergeSort fun first second => first ≤ second

def nameClass : List Char :=
  '[' :: '^' :: flavor.sortedInvalidNameChars.flatMap classMember ++ [']']

end Flavor

def Token.regexText (flavor : Flavor) : Token → List Char
  | separators => flavor.separatorClass ++ ['+']
  | anyCharacter => flavor.nameClass
  | anyDirectories =>
      "(?:".toList ++ flavor.nameClass ++ "*+".toList ++ flavor.separatorClass ++ "++)*".toList
  | anyName => flavor.nameClass ++ ['*']
  | literal character => Regex.escape character

def bodyText (flavor : Flavor) (specification : List Char) : List Char :=
  (Token.scan flavor specification).flatMap (Token.regexText flavor)

def compile (flavor : Flavor) (specification : List Char) : List Char :=
  '^' :: bodyText flavor specification ++ ['\\', 'Z']

end FileSpec
