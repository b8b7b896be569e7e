import FileSpec.Path.Flavor
import FileSpec.Settings.Value

/-!
The names of path styles, in which case does not count.
-/

set_option autoImplicit false

namespace FileSpec

namespace Text

/--
Full case folding, as far as it results in basic Latin letters. All other characters are left
as they are: none of them folds to such letters alone.
-/
def foldLatin (character : Char) : List Char :=
  match character with
  | '\u017F' => ['s']
  | '\u212A' => ['k']
  | '\u00DF' => ['s', 's']
  | '\u1E9E' => ['s', 's']
  | '\uFB00' => ['f', 'f']
  | '\uFB01' => ['f', 'i']
  | '\uFB02' => ['f', 'l']
  | '\uFB03' => ['f', 'f', 'i']
  | '\uFB04' => ['f', 'f', 'l']
  | '\uFB05' => ['s', 't']
  | '\uFB06' => ['s', 't']
  | _ => [character.toLower]

end Text

namespace PathStyle

def all : List PathStyle :=
  [host, posix, windows]

def name : PathStyle → String
  | host => "host"
  | posix => "posix"
  | windows => "windows"

def ofName? (name : String) : Option PathStyle :=
  all.find? (·.name == name)

def ofFoldedName? (text : String) : Option PathStyle :=
  all.find? fun style => style.name.toList == text.toList.flatMap Text.foldLatin

def normalize (value : Value) : Value :=
  match value with
  | .text text =>
      match ofFoldedName? text with
      | some style => .text style.name
      | none => value
  | _ => value

end PathStyle

end FileSpec
