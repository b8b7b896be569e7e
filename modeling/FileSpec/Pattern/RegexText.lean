import FileSpec.Pattern.Regex
import FileSpec.Text.Decimal

/-!
Reading regular expressions from their text.

The text of an expression stands between `^` and `\Z`. In it a character stands for itself
unless it is one of `special`, which a backslash makes literal; `[…]` and `[^…]` list the
characters of a class, where `\x` and exactly two hexadecimal digits is a character by its
code point; `*` and `+` repeat a class, possessively with a `+` behind them; and `(?:…)*` repeats
a group.
-/

set_option autoImplicit false

namespace FileSpec

open Text

namespace Regex

def special : List Char :=
  "()[]{}?*+-|^$\\.&~# \t\n\r\x0B\x0C".toList

def escape (character : Char) : List Char :=
  if special.contains character then ['\\', character] else [character]

def isBasicAlphanumeric (character : Char) : Bool :=
  character.isAlphanum

def readMember? : List Char → Option (Char × List Char)
  | '\\' :: 'x' :: high :: low :: rest => do
      let highValue ← hexValue? high
      let lowValue ← hexValue? low
      some (Char.ofNat (16 * highValue + lowValue), rest)
  | '\\' :: character :: rest =>
      if isBasicAlphanumeric character then none else some (character, rest)
  | character :: rest =>
      if character == '\\' || character == '-' then none else some (character, rest)
  | [] => none

/-- The members of a class up to its closing bracket; a bracket that comes first is a member. -/
def readMembers? : (fuel : Nat) → (first : Bool) → List Char → Option (List Char × List Char)
  | 0, _, _ => none
  | fuel + 1, first, text =>
      match text, first with
      | ']' :: rest, false => some ([], rest)
      | _, _ => do
          let (member, rest) ← readMember? text
          let (members, left) ← readMembers? fuel false rest
          some (member :: members, left)

def readClass? (text : List Char) : Option (CharClass × List Char) :=
  match text with
  | '^' :: rest => (readMembers? (rest.length + 1) true rest).map fun (members, left) =>
      (⟨true, members⟩, left)
  | _ => (readMembers? (text.length + 1) true text).map fun (members, left) =>
      (⟨false, members⟩, left)

def repeatClass (characterClass : CharClass) : List Char → Regex × List Char
  | '*' :: '+' :: rest => (run .possessive characterClass, rest)
  | '+' :: '+' :: rest => (append (one characterClass) (run .possessive characterClass), rest)
  | '*' :: rest => (run .greedy characterClass, rest)
  | '+' :: rest => (append (one characterClass) (run .greedy characterClass), rest)
  | rest => (one characterClass, rest)

def literal (character : Char) : Regex :=
  one ⟨false, [character]⟩

def atSequenceEnd : List Char → Bool
  | [] => true
  | ')' :: _ => true
  | text => text == ['\\', 'Z']

def readItem? (readGroup? : List Char → Option (Regex × List Char)) :
    List Char → Option (Regex × List Char)
  | '(' :: '?' :: ':' :: rest =>
      match readGroup? rest with
      | some (body, ')' :: '*' :: left) => some (many body, left)
      | _ => none
  | '[' :: rest => (readClass? rest).map fun (characterClass, left) =>
      repeatClass characterClass left
  | '\\' :: character :: rest =>
      if isBasicAlphanumeric character then none else some (literal character, rest)
  | character :: rest =>
      if special.contains character then none else some (literal character, rest)
  | [] => none

def readSequence? : (fuel : Nat) → List Char → Option (Regex × List Char)
  | 0, _ => none
  | fuel + 1, text =>
      if atSequenceEnd text then some (empty, text)
      else do
        let (item, afterItem) ← readItem? (readSequence? fuel) text
        let (others, left) ← readSequence? fuel afterItem
        some (append item others, left)

def ofText? : List Char → Option Regex
  | '^' :: text =>
      match readSequence? (text.length + 1) text with
      | some (regex, ['\\', 'Z']) => some regex
      | _ => none
  | _ => none

end Regex

end FileSpec
