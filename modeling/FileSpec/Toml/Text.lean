import FileSpec.Text.Decimal

/-!
Reading TOML: blanks, comments, keys and strings.

A reader takes a text and answers what it read together with what is left, or the defect that
it met first. A string is read from behind its opening marks.
-/

set_option autoImplicit false

namespace FileSpec.Toml

open FileSpec.Text

inductive Defect where
  /-- It breaks the grammar, or defines something twice. -/
  | malformed
  | tooManyDigits
  deriving DecidableEq, Repr

abbrev Reading (Result : Type) := Result × List Char

/-- Control characters, of which a tab alone may stand in strings and comments. -/
def isForbidden (character : Char) : Bool :=
  (character.toNat < 0x20 && character != '\t') || character.toNat == 0x7F

def isSpaceOrTab (character : Char) : Bool :=
  character == ' ' || character == '\t'

def isSpaceOrLineEnd (character : Char) : Bool :=
  isSpaceOrTab character || character == '\n'

def skipSpace (text : List Char) : List Char :=
  text.dropWhile isSpaceOrTab

def skipComment : List Char → Except Defect (List Char)
  | '#' :: text =>
      let comment := text.takeWhile (· != '\n')
      if comment.any isForbidden then .error .malformed else .ok (text.drop comment.length)
  | text => .ok text

/-- Skip blanks, line ends and comments; `fuel` bounds the number of comments. -/
def skipLines : (fuel : Nat) → List Char → Except Defect (List Char)
  | 0, text => .ok text
  | fuel + 1, text =>
      match text.dropWhile isSpaceOrLineEnd with
      | '#' :: rest => do skipLines fuel (← skipComment ('#' :: rest))
      | rest => .ok rest

def codePoint (digits : List Char) : Except Defect Char :=
  match digits.mapM hexValue? with
  | none => .error .malformed
  | some values =>
      if (ofDigits 16 values).isValidChar then .ok (Char.ofNat (ofDigits 16 values))
      else .error .malformed

def escaped? : Char → Option Char
  | 'b' => some '\x08'
  | 't' => some '\t'
  | 'n' => some '\n'
  | 'f' => some '\x0C'
  | 'r' => some '\r'
  | '\x22' => some '\x22'
  | '\\' => some '\\'
  | _ => none

def readEscape : List Char → Except Defect (Reading Char)
  | 'u' :: a :: b :: c :: d :: rest => do .ok (← codePoint [a, b, c, d], rest)
  | 'U' :: a :: b :: c :: d :: e :: f :: g :: h :: rest => do
      .ok (← codePoint [a, b, c, d, e, f, g, h], rest)
  | letter :: rest =>
      match escaped? letter with
      | some character => .ok (character, rest)
      | none => .error .malformed
  | [] => .error .malformed

def skipHiddenLineEnd (text : List Char) : Except Defect (List Char) :=
  match skipSpace text with
  | [] => .ok []
  | '\n' :: rest => .ok (rest.dropWhile isSpaceOrLineEnd)
  | _ => .error .malformed

def readBasic : (fuel : Nat) → List Char → Except Defect (Reading (List Char))
  | 0, _ => .error .malformed
  | fuel + 1, text =>
      match text with
      | [] => .error .malformed
      | '\x22' :: rest => .ok ([], rest)
      | '\\' :: rest => do
          let (character, afterEscape) ← readEscape rest
          let (others, left) ← readBasic fuel afterEscape
          .ok (character :: others, left)
      | character :: rest =>
          if isForbidden character then .error .malformed
          else do
            let (others, left) ← readBasic fuel rest
            .ok (character :: others, left)

def closingMarks (mark : Char) : List Char → List Char × List Char
  | first :: second :: rest =>
      if first == mark then
        if second == mark then ([mark, mark], rest) else ([mark], second :: rest)
      else ([], first :: second :: rest)
  | [first] => if first == mark then ([mark], []) else ([], [first])
  | [] => ([], [])

def readMultilineBasic : (fuel : Nat) → List Char → Except Defect (Reading (List Char))
  | 0, _ => .error .malformed
  | fuel + 1, text =>
      match text with
      | [] => .error .malformed
      | '\x22' :: '\x22' :: '\x22' :: rest => .ok (closingMarks '\x22' rest)
      | '\\' :: rest =>
          if rest.head?.any isSpaceOrLineEnd then do
            readMultilineBasic fuel (← skipHiddenLineEnd rest)
          else do
            let (character, afterEscape) ← readEscape rest
            let (others, left) ← readMultilineBasic fuel afterEscape
            .ok (character :: others, left)
      | character :: rest =>
          if isForbidden character && character != '\n' then .error .malformed
          else do
            let (others, left) ← readMultilineBasic fuel rest
            .ok (character :: others, left)

def readLiteral (text : List Char) : Except Defect (Reading (List Char)) :=
  let content := text.takeWhile (· != apostrophe)
  match text.drop content.length with
  | [] => .error .malformed
  | _ :: rest => if content.any isForbidden then .error .malformed else .ok (content, rest)
where
  apostrophe : Char := '\x27'

def readMultilineLiteral : List Char → Except Defect (Reading (List Char))
  | '\x27' :: '\x27' :: '\x27' :: rest => .ok (closingMarks '\x27' rest)
  | character :: rest =>
      if isForbidden character && character != '\n' then .error .malformed
      else do
        let (others, left) ← readMultilineLiteral rest
        .ok (character :: others, left)
  | [] => .error .malformed

/-- A line end right after the opening marks of a string of several lines is not part of it. -/
def skipFirstLineEnd : List Char → List Char
  | '\n' :: rest => rest
  | text => text

def readString? : List Char → Option (Except Defect (Reading (List Char)))
  | '\x22' :: '\x22' :: '\x22' :: rest =>
      some (readMultilineBasic (rest.length + 1) (skipFirstLineEnd rest))
  | '\x22' :: rest => some (readBasic (rest.length + 1) rest)
  | '\x27' :: '\x27' :: '\x27' :: rest => some (readMultilineLiteral (skipFirstLineEnd rest))
  | '\x27' :: rest => some (readLiteral rest)
  | _ => none

def isBareKeyCharacter (character : Char) : Bool :=
  character.isAlphanum || character == '-' || character == '_'

def readKeyPart (text : List Char) : Except Defect (Reading String) :=
  let bare := text.takeWhile isBareKeyCharacter
  match text with
  | '\x22' :: rest => do
      let (part, left) ← readBasic (rest.length + 1) rest
      .ok (String.ofList part, left)
  | '\x27' :: rest => do
      let (part, left) ← readLiteral rest
      .ok (String.ofList part, left)
  | _ =>
      if bare.isEmpty then .error .malformed
      else .ok (String.ofList bare, text.drop bare.length)

structure Key where
  first : String
  others : List String
  deriving DecidableEq, Repr

namespace Key

def toList (key : Key) : List String :=
  key.first :: key.others

def parents (key : Key) : List String :=
  key.toList.dropLast

def name (key : Key) : String :=
  key.toList.getLast (List.cons_ne_nil _ _)

end Key

def readKeyOthers : (fuel : Nat) → List Char → Except Defect (Reading (List String))
  | 0, _ => .error .malformed
  | fuel + 1, text =>
      match skipSpace text with
      | '.' :: rest => do
          let (part, afterPart) ← readKeyPart (skipSpace rest)
          let (others, left) ← readKeyOthers fuel afterPart
          .ok (part :: others, left)
      | rest => .ok ([], rest)

def readKey (text : List Char) : Except Defect (Reading Key) := do
  let (first, afterFirst) ← readKeyPart text
  let (others, left) ← readKeyOthers (afterFirst.length + 1) afterFirst
  .ok (⟨first, others⟩, left)

end FileSpec.Toml
