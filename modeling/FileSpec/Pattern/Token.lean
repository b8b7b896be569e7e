import FileSpec.Path.Flavor

/-!
The tokens of a file specification.

A specification is read from left to right. At each place the first of these that fits is
taken: a run of separators, a question mark, two asterisks before a run of separators, one
asterisk, and otherwise the character itself.
-/

set_option autoImplicit false

namespace FileSpec

inductive Token where
  | separators
  | anyCharacter
  | anyDirectories
  | anyName
  | literal (character : Char)
  deriving DecidableEq, Repr

namespace Token

variable (flavor : Flavor)

theorem length_dropWhile_le {α : Type} (drop : α → Bool) (values : List α) :
    (values.dropWhile drop).length ≤ values.length :=
  (List.dropWhile_sublist drop).length_le

def next (first : Char) (rest : List Char) :
    Token × { left : List Char // left.length ≤ rest.length } :=
  if flavor.isSeparator first then
    (.separators, ⟨rest.dropWhile flavor.isSeparator, length_dropWhile_le ..⟩)
  else if first == '?' then (.anyCharacter, ⟨rest, Nat.le_refl _⟩)
  else if first == '*' then
    match rest with
    | '*' :: separator :: others =>
        if flavor.isSeparator separator then
          (.anyDirectories, ⟨others.dropWhile flavor.isSeparator,
            Nat.le_trans (length_dropWhile_le ..) (Nat.le_add_right _ 2)⟩)
        else (.anyName, ⟨_, Nat.le_refl _⟩)
    | _ => (.anyName, ⟨_, Nat.le_refl _⟩)
  else (.literal first, ⟨rest, Nat.le_refl _⟩)

def scan : List Char → List Token
  | [] => []
  | first :: rest =>
      let step := next flavor first rest
      step.1 :: scan step.2.val
termination_by specification => specification.length
decreasing_by exact Nat.lt_succ_of_le (next flavor first rest).2.property

end Token

end FileSpec
