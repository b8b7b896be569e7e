/-!
Regular expressions, and which front pieces of a text they match.

Greedy repetition gives back what the rest of the expression cannot do without, so it takes any
number of rounds. Possessive repetition gives nothing back: of a class of characters it takes
all that follow. `Leaves` is the relation between a text and what a match leaves of it.
-/

set_option autoImplicit false

namespace FileSpec

structure CharClass where
  negated : Bool
  members : List Char
  deriving DecidableEq, Repr

def CharClass.contains (characterClass : CharClass) (character : Char) : Bool :=
  characterClass.members.contains character != characterClass.negated

inductive Keeping where
  | greedy
  | possessive
  deriving DecidableEq, Repr

inductive Regex where
  | empty
  | one (characterClass : CharClass)
  | run (keeping : Keeping) (characterClass : CharClass)
  | append (first second : Regex)
  /-- Any number of rounds, each of which takes something. -/
  | many (body : Regex)
  deriving DecidableEq, Repr

namespace Regex

/-- `regex.Leaves text rest`: a match of the expression at the front of `text` leaves `rest`. -/
inductive Leaves : Regex → List Char → List Char → Prop where
  | empty {text} : Leaves empty text text
  | one {characterClass character rest} :
      characterClass.contains character = true →
      Leaves (one characterClass) (character :: rest) rest
  | runMore {keeping characterClass character text rest} :
      characterClass.contains character = true →
      Leaves (run keeping characterClass) text rest →
      Leaves (run keeping characterClass) (character :: text) rest
  | greedyEnd {characterClass text} : Leaves (run .greedy characterClass) text text
  | possessiveEnd {characterClass text} :
      text.head?.any characterClass.contains = false →
      Leaves (run .possessive characterClass) text text
  | append {first second text middle rest} :
      Leaves first text middle → Leaves second middle rest →
      Leaves (append first second) text rest
  | manyEnd {body text} : Leaves (many body) text text
  | manyMore {body text middle rest} :
      Leaves body text middle → middle.length < text.length → Leaves (many body) middle rest →
      Leaves (many body) text rest

def mapCharacters (change : Char → Char) : Regex → Regex
  | empty => empty
  | one characterClass => one ⟨characterClass.negated, characterClass.members.map change⟩
  | run keeping characterClass =>
      run keeping ⟨characterClass.negated, characterClass.members.map change⟩
  | append first second => append (mapCharacters change first) (mapCharacters change second)
  | many body => many (mapCharacters change body)

end Regex

end FileSpec
