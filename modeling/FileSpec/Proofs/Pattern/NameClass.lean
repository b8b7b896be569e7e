import FileSpec.Proofs.Pattern.TokenLanguage

/-!
# The class of name characters

An expression lists the characters that no name holds. One that cannot be shown is written by its
code point, of which a class reads two digits. So a code point of more digits is read as the
character by the first two of them, and as the other digits: `classMember_readsMembers`. None of
these is a character of that kind, so the class has exactly the characters of names if no character
of that kind is to be left out: `nameClass_admits_legal_iff`.
-/

set_option autoImplicit false

namespace FileSpec

open Text

namespace Text

theorem exists_digit_of_mem_toDigits {base number : Nat} (many : 1 < base) {character : Char}
    (member : character ∈ Nat.toDigits base number) :
    ∃ digit < base, character = Nat.digitChar digit := by
  induction number using Nat.strongRecOn with
  | ind number inductionHypothesis =>
      by_cases small : number < base
      · rw [Nat.toDigits_of_lt_base small, List.mem_singleton] at member
        exact ⟨number, small, member⟩
      · rw [Nat.toDigits_of_base_le many (Nat.not_lt.mp small), List.mem_append,
          List.mem_singleton] at member
        rcases member with inFront | isLast
        · exact inductionHypothesis _ (Nat.div_lt_self (by omega) many) inFront
        · exact ⟨_, Nat.mod_lt number (by omega), isLast⟩

/-- A number that two digits cannot write begins with two digits of its own. -/
theorem exists_hexadecimal_eq {number : Nat} (large : 256 ≤ number) :
    ∃ high < 16, ∃ low < 16, ∃ digits,
      hexadecimal 2 number = Nat.digitChar high :: Nat.digitChar low :: digits ∧
      ∀ character ∈ digits, ∃ digit < 16, character = Nat.digitChar digit := by
  have many : 1 < 16 := by decide
  have isDigit : ∀ character ∈ Nat.toDigits 16 number,
      ∃ digit < 16, character = Nat.digitChar digit :=
    fun _ => exists_digit_of_mem_toDigits many
  have long : ¬ (Nat.toDigits 16 number).length ≤ 2 := by
    rw [Nat.length_toDigits_le_iff many (by decide)]
    omega
  have unpadded : hexadecimal 2 number = Nat.toDigits 16 number := by
    have noZeros : 2 - (Nat.toDigits 16 number).length = 0 := by omega
    simp [hexadecimal, noZeros]
  rw [unpadded]
  match shape : Nat.toDigits 16 number with
  | [] => simp [shape] at long
  | [_] => simp [shape] at long
  | first :: second :: digits =>
      rw [shape] at isDigit
      obtain ⟨⟨high, highSmall, rfl⟩, ⟨low, lowSmall, rfl⟩, others⟩ :
          (∃ digit < 16, first = Nat.digitChar digit) ∧
            (∃ digit < 16, second = Nat.digitChar digit) ∧
            ∀ character ∈ digits, ∃ digit < 16, character = Nat.digitChar digit := by
        simpa using isDigit
      exact ⟨high, highSmall, low, lowSmall, digits, rfl, others⟩

theorem hexValue?_digitChar : ∀ digit < 16, hexValue? (Nat.digitChar digit) = some digit := by
  decide

end Text

namespace Flavor

/-- The members as which a class reads what is written for a character. Of a code point with more
than two digits, the first two are read as a code point and the others as themselves. -/
def membersRead (character : Char) : List Char :=
  if isPrintable character || character.toNat < 256 then [character]
  else
    let digits := hexadecimal 2 character.toNat
    Char.ofNat (ofDigits 16 ((digits.take 2).filterMap hexValue?)) :: digits.drop 2

theorem membersRead_of_readable {character : Char}
    (readable : isPrintable character = true ∨ character.toNat < 256) :
    membersRead character = [character] := by
  simp [membersRead, readable]

@[simp]
theorem membersRead_ne_nil (character : Char) : membersRead character ≠ [] := by
  unfold membersRead
  split
  · exact List.cons_ne_nil _ _
  · exact List.cons_ne_nil _ _

/-- What is read of a code point with more than two digits. -/
theorem exists_membersRead_eq {character : Char} (unprintable : isPrintable character = false)
    (large : 256 ≤ character.toNat) :
    ∃ high < 16, ∃ low < 16, ∃ digits,
      classMember character =
        '\\' :: 'x' :: Nat.digitChar high :: Nat.digitChar low :: digits ∧
      membersRead character = Char.ofNat (16 * high + low) :: digits ∧
      ∀ digit ∈ digits, ∃ value < 16, digit = Nat.digitChar value := by
  obtain ⟨high, highSmall, low, lowSmall, digits, written, others⟩ := exists_hexadecimal_eq large
  have value : ofDigits 16 [high, low] = 16 * high + low := by
    simp only [ofDigits, List.foldl_cons, List.foldl_nil]
    omega
  refine ⟨high, highSmall, low, lowSmall, digits, ?_, ?_, others⟩
  · simp [classMember, unprintable, written]
  · have notSmall : ¬ character.toNat < 256 := by omega
    simp [membersRead, unprintable, notSmall, written, hexValue?_digitChar high highSmall,
      hexValue?_digitChar low lowSmall, value]

/-- Digits are written as they are. -/
theorem digits_readsMembers {digits : List Char}
    (isDigit : ∀ digit ∈ digits, ∃ value < 16, digit = Nat.digitChar value) :
    Regex.ReadsMembers digits digits := by
  have plain : ∀ value < 16, Regex.escape (Nat.digitChar value) = [Nat.digitChar value] := by
    decide
  have reads : Regex.ReadsMembers (digits.flatMap Regex.escape) digits :=
    .of_written fun digit _ => Regex.escape_writesMember digit
  have same : digits.flatMap Regex.escape = digits := by
    refine (List.flatMap_congr fun digit member => ?_).trans (List.flatMap_singleton' digits)
    obtain ⟨value, small, rfl⟩ := isDigit digit member
    exact plain value small
  rwa [same] at reads

theorem classMember_readsMembers (character : Char) :
    Regex.ReadsMembers (classMember character) (membersRead character) := by
  by_cases readable : isPrintable character = true ∨ character.toNat < 256
  · rw [membersRead_of_readable readable]
    exact .singleton (classMember_writesMember readable)
  · rw [not_or, Bool.not_eq_true, Nat.not_lt] at readable
    obtain ⟨high, highSmall, low, lowSmall, digits, written, read, isDigit⟩ :=
      exists_membersRead_eq readable.1 readable.2
    have whole : Regex.ReadsMembers
        (['\\', 'x', Nat.digitChar high, Nat.digitChar low] ++ digits)
        (Char.ofNat (16 * high + low) :: digits) := by
      refine .cons (fun rest => ?_) (by simp) (digits_readsMembers isDigit)
      simp [Regex.readMember?, hexValue?_digitChar high highSmall,
        hexValue?_digitChar low lowSmall]
    rw [written, read]
    exact whole

/-- Whatever is read as a member could be written as one. -/
theorem readable_of_mem_membersRead {character member : Char}
    (isRead : member ∈ membersRead character) :
    isPrintable member = true ∨ member.toNat < 256 := by
  by_cases readable : isPrintable character = true ∨ character.toNat < 256
  · rw [membersRead_of_readable readable, List.mem_singleton] at isRead
    rwa [isRead]
  · rw [not_or, Bool.not_eq_true, Nat.not_lt] at readable
    obtain ⟨high, highSmall, low, lowSmall, digits, -, read, isDigit⟩ :=
      exists_membersRead_eq readable.1 readable.2
    right
    rw [read, List.mem_cons] at isRead
    rcases isRead with rfl | inDigits
    · have small : ∀ number < 256, (Char.ofNat number).toNat < 256 := by decide +kernel
      exact small _ (by omega)
    · obtain ⟨value, valueSmall, rfl⟩ := isDigit member inDigits
      have small : ∀ value < 16, (Nat.digitChar value).toNat < 256 := by decide
      exact small value valueSmall

variable (flavor : Flavor)

/-- The characters that the class of name characters is read to have. -/
def readNameCharacters : CharClass :=
  ⟨true, flavor.sortedInvalidNameChars.flatMap membersRead⟩

theorem readNameCharacters_contains_iff (character : Char) :
    flavor.readNameCharacters.contains character = true ↔
      ∀ invalid ∈ flavor.invalidNameChars, character ∉ membersRead invalid := by
  simp [readNameCharacters, CharClass.contains]

/-- The class has the characters of names if two digits are enough for all others. -/
theorem readNameCharacters_legal_iff :
    (∀ character, flavor.readNameCharacters.contains character = true ↔
        character ∉ flavor.invalidNameChars) ↔
      ∀ character ∈ flavor.invalidNameChars,
        isPrintable character = true ∨ character.toNat < 256 := by
  simp only [readNameCharacters_contains_iff]
  constructor
  · intro legal character invalid
    by_contra unreadable
    -- The class has this character, since none like it is read as a member.
    refine (legal character).mp (fun other _ isRead => ?_) invalid
    exact unreadable (readable_of_mem_membersRead isRead)
  · intro readable character
    constructor
    · intro outside invalid
      apply outside character invalid
      rw [membersRead_of_readable (readable character invalid)]
      exact List.mem_singleton_self character
    · intro legal other invalid isRead
      rw [membersRead_of_readable (readable other invalid), List.mem_singleton] at isRead
      exact legal (isRead ▸ invalid)

variable {flavor}

theorem readClass?_readNameCharacters (nonempty : flavor.invalidNameChars ≠ [])
    (rest : List Char) :
    ∃ text, flavor.nameClass ++ rest = '[' :: text ∧
      Regex.readClass? text = some (flavor.readNameCharacters, rest) := by
  refine ⟨'^' :: flavor.sortedInvalidNameChars.flatMap classMember ++ ']' :: rest,
    by simp [nameClass], ?_⟩
  have reads : Regex.ReadsMembers (flavor.sortedInvalidNameChars.flatMap classMember)
      (flavor.sortedInvalidNameChars.flatMap membersRead) :=
    .flatMap fun character _ => classMember_readsMembers character
  refine reads.readClass?_negated (fun nothing => ?_) rest
  obtain ⟨character, invalid⟩ := List.exists_mem_of_ne_nil _ nonempty
  have unread := List.flatMap_eq_nil_iff.mp nothing character
    ((flavor.mem_sortedInvalidNameChars character).mpr invalid)
  exact membersRead_ne_nil character unread

theorem readItem?_readNameCharacters (nonempty : flavor.invalidNameChars ≠ [])
    (readGroup? : List Char → Option (Regex × List Char)) (rest : List Char) :
    Regex.readItem? readGroup? (flavor.nameClass ++ rest) =
      some (Regex.repeatClass flavor.readNameCharacters rest) := by
  obtain ⟨text, shape, read⟩ := flavor.readClass?_readNameCharacters nonempty rest
  simp [shape, Regex.readItem?, read]

end Flavor

namespace Regex

/-- The expression of a text with one item. -/
theorem ofText?_single {text : List Char} {item : Regex}
    (goesOn : atSequenceEnd (text ++ ['\\', 'Z']) = false)
    (read : ∀ readGroup?, readItem? readGroup? (text ++ ['\\', 'Z']) =
      some (item, ['\\', 'Z'])) :
    ofText? ('^' :: text ++ ['\\', 'Z']) = some (sequence [item]) := by
  have whole : readSequence? ((text ++ ['\\', 'Z']).length + 1) (text ++ ['\\', 'Z']) =
      some (sequence [item], ['\\', 'Z']) := by
    rw [List.length_append]
    exact readSequence?_item goesOn (read _) (readSequence?_end rfl)
  rw [List.cons_append, ofText?, whole]
  rfl

/-- A run that gives back what it took finds its language. -/
theorem isMatch_single_iff {item : Regex} (givesBack : item.backtracking = item)
    (text : List Char) : (sequence [item]).isMatch text = true ↔ text ∈ item.language := by
  have whole : (sequence [item]).backtracking = sequence [item] :=
    congrArg (append · empty) givesBack
  have onlyItem : (sequence [item]).language = item.language := mul_one item.language
  rw [← whole, backtracking_isMatch_iff, onlyItem]

end Regex

section Wildcards

variable {flavor : Flavor} (nonempty : flavor.invalidNameChars ≠ [])

include nonempty

theorem ofText?_question (plain : flavor.isSeparator '?' = false) :
    Regex.ofText? (compile flavor ['?']) =
      some (Regex.sequence [.one flavor.readNameCharacters]) := by
  have body : bodyText flavor ['?'] = flavor.nameClass := by
    simp [bodyText, Token.scan_anyCharacter plain, Token.regexText]
  rw [compile, body]
  exact Regex.ofText?_single (Regex.regexText_begins flavor .anyCharacter _).2
    fun readGroup? => Flavor.readItem?_readNameCharacters nonempty readGroup? _

theorem ofText?_asterisk (plain : flavor.isSeparator '*' = false) :
    Regex.ofText? (compile flavor ['*']) =
      some (Regex.sequence [.run .greedy flavor.readNameCharacters]) := by
  have body : bodyText flavor ['*'] = flavor.nameClass ++ ['*'] := by
    simp [bodyText, Token.scan_anyName plain, Token.regexText]
  rw [compile, body]
  refine Regex.ofText?_single (Regex.regexText_begins flavor .anyName _).2 fun readGroup? => ?_
  rw [List.append_assoc, Flavor.readItem?_readNameCharacters nonempty]
  rfl

/--
The text of the class of name characters is read as a class, and a question mark and an asterisk
match one character and any number of characters of it. It has exactly the characters that are not
invalid if and only if each invalid character can be shown or has a code point of two digits.
-/
theorem nameClass_admits_legal_iff :
    ∃ characterClass : CharClass,
      (∃ text, flavor.nameClass = '[' :: text ∧
        Regex.readClass? text = some (characterClass, [])) ∧
      (∀ character, characterClass.contains character = true ↔
        ∀ invalid ∈ flavor.invalidNameChars, character ∉ Flavor.membersRead invalid) ∧
      ((∀ character, characterClass.contains character = true ↔
          character ∉ flavor.invalidNameChars) ↔
        ∀ character ∈ flavor.invalidNameChars,
          isPrintable character = true ∨ character.toNat < 256) ∧
      (flavor.isSeparator '?' = false → ∃ regex,
        Regex.ofText? (compile flavor ['?']) = some regex ∧
        ∀ text : List Char, regex.isMatch text = true ↔
          ∃ character, characterClass.contains character = true ∧ text = [character]) ∧
      (flavor.isSeparator '*' = false → ∃ regex,
        Regex.ofText? (compile flavor ['*']) = some regex ∧
        ∀ text : List Char, regex.isMatch text = true ↔
          ∀ character ∈ text, characterClass.contains character = true) := by
  refine ⟨flavor.readNameCharacters, ?text, flavor.readNameCharacters_contains_iff,
    flavor.readNameCharacters_legal_iff, fun plain => ?question, fun plain => ?asterisk⟩
  case text =>
    obtain ⟨text, shape, read⟩ := flavor.readClass?_readNameCharacters nonempty []
    rw [List.append_nil] at shape
    exact ⟨text, shape, read⟩
  case question =>
    exact ⟨_, ofText?_question nonempty plain, Regex.isMatch_single_iff rfl⟩
  case asterisk =>
    refine ⟨_, ofText?_asterisk nonempty plain, fun text => ?_⟩
    rw [Regex.isMatch_single_iff rfl]
    exact Regex.mem_language_run

end Wildcards

/-- Names without the marks of classes and without the next line, which cannot be shown. -/
def Flavor.withoutClassMarks : Flavor :=
  { Flavor.posix with invalidNameChars := ['/', '^', ']', '-', '\\', '\u0085'] }

theorem nameClass_admits_legal_iff_marks :
    Flavor.withoutClassMarks.invalidNameChars ≠ [] ∧
    ∃ characterClass : CharClass,
      (∃ text, Flavor.withoutClassMarks.nameClass = '[' :: text ∧
        Regex.readClass? text = some (characterClass, [])) ∧
      (∀ character, characterClass.contains character = true ↔
        character ∉ ['/', '^', ']', '-', '\\', '\u0085']) ∧
      ∃ regex, Regex.ofText? (compile Flavor.withoutClassMarks ['?']) = some regex ∧
        ∀ text : List Char, regex.isMatch text = true ↔
          ∃ character, characterClass.contains character = true ∧ text = [character] := by
  have nonempty : Flavor.withoutClassMarks.invalidNameChars ≠ [] := by decide
  have small : Flavor.withoutClassMarks.invalidNameChars.all (·.toNat < 256) = true := by decide
  have readable : ∀ character ∈ Flavor.withoutClassMarks.invalidNameChars,
      isPrintable character = true ∨ character.toNat < 256 :=
    fun character invalid => .inr (of_decide_eq_true (List.all_eq_true.mp small character invalid))
  obtain ⟨characterClass, text, -, legal, question, -⟩ := nameClass_admits_legal_iff nonempty
  exact ⟨nonempty, characterClass, text, legal.mpr readable, question (by decide)⟩

/-- Names without the space of no width, which cannot be shown and has four digits. -/
def Flavor.withoutZeroWidthSpace : Flavor :=
  { Flavor.posix with invalidNameChars := ['\x00', '/', '\u200b'] }

/-- The class has the space of no width, and it does not have the last of its digits. -/
theorem nameClass_admits_zeroWidthSpace :
    Flavor.withoutZeroWidthSpace.invalidNameChars ≠ [] ∧
    ∃ characterClass : CharClass,
      (∃ text, Flavor.withoutZeroWidthSpace.nameClass = '[' :: text ∧
        Regex.readClass? text = some (characterClass, [])) ∧
      ('\u200b' ∈ Flavor.withoutZeroWidthSpace.invalidNameChars ∧
        characterClass.contains '\u200b' = true) ∧
      'b' ∉ Flavor.withoutZeroWidthSpace.invalidNameChars ∧
        characterClass.contains 'b' = false := by
  have sorted : Flavor.withoutZeroWidthSpace.sortedInvalidNameChars =
      ['\x00', '/', '\u200b'] := by
    have once : Flavor.withoutZeroWidthSpace.invalidNameChars.eraseDups =
        ['\x00', '/', '\u200b'] := by decide
    rw [Flavor.sortedInvalidNameChars, once]
    exact List.mergeSort_of_pairwise (by decide)
  have written : Flavor.withoutZeroWidthSpace.nameClass = "[^\\x00/\\x200b]".toList := by
    rw [Flavor.nameClass, sorted]
    decide +kernel
  exact ⟨by decide, ⟨true, ['\x00', '/', ' ', '0', 'b']⟩,
    ⟨"^\\x00/\\x200b]".toList, written, by decide⟩, by decide, by decide⟩

end FileSpec
