import FileSpec.Path.Root
import FileSpec.Pattern.Compile
import FileSpec.Pattern.Reader
import FileSpec.Text.Caseless

/-!
Matching paths against file specifications.

A specification that begins at the root matches a rooted path whatever its root is: both are
compared without what roots them.
-/

set_option autoImplicit false

namespace FileSpec

open Text

/-- The character by which a comparison knows a character: itself, or its class of letters. -/
def comparedAs (ignoreCase : Bool) (character : Char) : Char :=
  if ignoreCase then caseless character else character

def beginsWithAnyDirectories (flavor : Flavor) : List Char → Bool
  | '*' :: '*' :: separator :: _ => flavor.isSeparator separator
  | _ => false

/-- A separator at the front that is not repeated there; one of the other kind may follow. -/
def beginsWithOneSeparator (flavor : Flavor) : List Char → Bool
  | [] => false
  | separator :: rest => flavor.isSeparator separator && rest.head? != some separator

def isRootRelative (flavor : Flavor) (specification : List Char) : Bool :=
  beginsWithAnyDirectories flavor specification || beginsWithOneSeparator flavor specification

structure Matcher where
  flavor : Flavor
  specification : List Char
  ignoreCase : Bool
  /-- The expression, by the characters as they are compared. -/
  regex : Regex
  belowRoot? : Option Regex

namespace Matcher

def regex? (flavor : Flavor) (ignoreCase : Bool) (specification : List Char) : Option Regex :=
  (Regex.ofText? (compile flavor specification)).map (·.mapCharacters (comparedAs ignoreCase))

/-- The matcher of a specification; none if the flavor has no legal class of name characters. -/
def ofSpecification? (flavor : Flavor) (ignoreCase : Bool) (specification : List Char) :
    Option Matcher := do
  let regex ← regex? flavor ignoreCase specification
  if isRootRelative flavor specification then
    let belowRoot ← regex? flavor ignoreCase (specification.dropWhile flavor.isSeparator)
    some ⟨flavor, specification, ignoreCase, regex, some belowRoot⟩
  else some ⟨flavor, specification, ignoreCase, regex, none⟩

def pattern (matcher : Matcher) : List Char :=
  compile matcher.flavor matcher.specification

def pathBelowRoot (flavor : Flavor) (path : Path) : Path :=
  (flavor.dropRoot path).dropWhile flavor.isSeparator

def accepts (matcher : Matcher) (path : Path) : Bool :=
  let isMatch := fun (regex : Regex) (text : Path) =>
    regex.isMatch (text.map (comparedAs matcher.ignoreCase))
  match matcher.belowRoot? with
  | some belowRoot =>
      if matcher.flavor.isRooted path then isMatch belowRoot (pathBelowRoot matcher.flavor path)
      else isMatch matcher.regex path
  | none => isMatch matcher.regex path

end Matcher

/-- Whether one of the matchers accepts a path; a blank path is never accepted. -/
def acceptedByAny (matchers : List Matcher) (path : Path) : Bool :=
  !isBlank path && matchers.any (·.accepts path)

/--
Whether one of the specifications matches a path. They are tried in order, and one that has no
matcher is only met when none before it matched.
-/
def matchesAny? (flavor : Flavor) (ignoreCase : Bool) (path : Path) :
    List (List Char) → Option Bool
  | [] => some false
  | specification :: others =>
      if isBlank path then some false
      else do
        let matcher ← Matcher.ofSpecification? flavor ignoreCase specification
        if matcher.accepts path then some true else matchesAny? flavor ignoreCase path others

end FileSpec
