import FileSpec.Pattern.Compile

/-!
# Reading back the text of an expression

The text of a specification is the text of its tokens, one after the other. Each of these is read
back as one expression, whatever the next token contributes: `readItem?_regexText`. So the whole
text reads as the sequence of these expressions, `ofText?_compile`.
-/

set_option autoImplicit false

namespace FileSpec

open Text

namespace Regex

def sequence (regexes : List Regex) : Regex :=
  regexes.foldr append empty

theorem isBasicAlphanumeric_of_mem_special {character : Char} (isSpecial : character ∈ special) :
    isBasicAlphanumeric character = false := by
  have checked : special.all (!isBasicAlphanumeric ·) = true := by decide
  simpa using List.all_eq_true.mp checked character isSpecial

@[simp]
theorem escape_of_mem_special {character : Char} (isSpecial : character ∈ special) :
    escape character = ['\\', character] := by
  simp [escape, isSpecial]

@[simp]
theorem escape_of_not_mem_special {character : Char} (plain : character ∉ special) :
    escape character = [character] := by
  simp [escape, plain]

/-- A way of writing a character that a class reads back, whatever is written behind it. -/
structure WritesMember (write : Char → List Char) (character : Char) : Prop where
  reads : ∀ rest, readMember? (write character ++ rest) = some (character, rest)
  /-- It is not taken for the end of the class. -/
  continues : (write character).head? ≠ some ']'

/-- Nothing is read as a member. -/
theorem ne_nil_of_reads {text : List Char} {member : Char}
    (reads : ∀ rest, readMember? (text ++ rest) = some (member, rest)) : text ≠ [] := by
  intro nothing
  have read := reads []
  simp [nothing, readMember?] at read

theorem readMember?_escape (character : Char) (rest : List Char) :
    readMember? (escape character ++ rest) = some (character, rest) := by
  by_cases isSpecial : character ∈ special
  · have basic := isBasicAlphanumeric_of_mem_special isSpecial
    have notMark : character ≠ 'x' := by
      rintro rfl
      exact absurd isSpecial (by decide)
    rw [escape_of_mem_special isSpecial]
    unfold readMember?
    split
    · next text =>
        simp only [List.cons_append, List.cons.injEq] at text
        exact absurd text.2.1 notMark
    · next text =>
        simp only [List.cons_append, List.nil_append, List.cons.injEq, true_and] at text
        obtain ⟨rfl, rfl⟩ := text
        simp [basic]
    · next notEscaped text =>
        simp only [List.cons_append, List.nil_append, List.cons.injEq] at text
        exact absurd text.2.symm (notEscaped _ _ text.1.symm)
    · next text => simp at text
  · have notEscape : character ≠ '\\' := by
      rintro rfl
      exact isSpecial (by decide)
    have notRange : character ≠ '-' := by
      rintro rfl
      exact isSpecial (by decide)
    rw [escape_of_not_mem_special isSpecial]
    unfold readMember?
    split
    · next text => simp_all
    · next text => simp_all
    · next text =>
        simp only [List.cons_append, List.nil_append, List.cons.injEq] at text
        obtain ⟨rfl, rfl⟩ := text
        simp [notEscape, notRange]
    · next text => simp at text

theorem escape_writesMember (character : Char) : WritesMember escape character where
  reads := readMember?_escape character
  continues := by
    by_cases isSpecial : character ∈ special
    · simp [escape_of_mem_special isSpecial]
    · rw [escape_of_not_mem_special isSpecial]
      intro ends
      simp only [List.head?_cons, Option.some.injEq] at ends
      subst ends
      exact isSpecial (by decide)

theorem readMember?_hexadecimal {number : Nat} (small : number < 256) (rest : List Char) :
    readMember? ('\\' :: 'x' :: hexadecimal 2 number ++ rest) =
      some (Char.ofNat number, rest) := by
  have checked : ∀ other < 256,
      (hexadecimal 2 other).map hexValue? = [some (other / 16), some (other % 16)] := by
    decide +kernel
  obtain ⟨high, tail, written, highValue, lowWritten⟩ :=
    List.map_eq_cons_iff.mp (checked number small)
  obtain ⟨low, lowValue⟩ := List.map_eq_singleton_iff.mp lowWritten
  have whole : 16 * (number / 16) + number % 16 = number := Nat.div_add_mod number 16
  simp [written, lowValue.1, readMember?, highValue, lowValue.2, whole]

/-- `ReadsMembers text members`: inside a class the text is read as these members. -/
inductive ReadsMembers : List Char → List Char → Prop where
  | nil : ReadsMembers [] []
  | cons {text member others members} :
      (∀ rest, readMember? (text ++ rest) = some (member, rest)) → text.head? ≠ some ']' →
      ReadsMembers others members → ReadsMembers (text ++ others) (member :: members)

namespace ReadsMembers

variable {text others members more : List Char}

theorem append (first : ReadsMembers text members) (second : ReadsMembers others more) :
    ReadsMembers (text ++ others) (members ++ more) := by
  induction first with
  | nil => exact second
  | cons reads continues _ inductionHypothesis =>
      rw [List.append_assoc]
      exact .cons reads continues inductionHypothesis

theorem singleton {write : Char → List Char} {character : Char}
    (written : WritesMember write character) : ReadsMembers (write character) [character] := by
  have alone : ReadsMembers (write character ++ []) [character] :=
    .cons written.reads written.continues .nil
  rwa [List.append_nil] at alone

theorem flatMap {write read : Char → List Char} {characters : List Char}
    (written : ∀ character ∈ characters, ReadsMembers (write character) (read character)) :
    ReadsMembers (characters.flatMap write) (characters.flatMap read) := by
  induction characters with
  | nil => exact .nil
  | cons character characters inductionHypothesis =>
      obtain ⟨first, others⟩ := List.forall_mem_cons.mp written
      exact first.append (inductionHypothesis others)

theorem of_written {write : Char → List Char}
    (written : ∀ character ∈ members, WritesMember write character) :
    ReadsMembers (members.flatMap write) members := by
  have single := flatMap fun character member => singleton (written character member)
  rwa [List.flatMap_singleton'] at single

/-- A member is written by one character at least. -/
theorem length_le (reads : ReadsMembers text members) : members.length ≤ text.length := by
  induction reads with
  | nil => exact Nat.le_refl 0
  | @cons text member others members reads _ _ inductionHypothesis =>
      have positive := List.length_pos_iff.mpr (ne_nil_of_reads reads)
      simp only [List.length_append, List.length_cons]
      omega

theorem readMembers?_eq (reads : ReadsMembers text members) (first : Bool)
    (started : first = true → members ≠ []) {fuel : Nat} (enough : members.length < fuel)
    (rest : List Char) :
    readMembers? fuel first (text ++ ']' :: rest) = some (members, rest) := by
  induction reads generalizing first fuel with
  | nil =>
      obtain ⟨fuel, rfl⟩ : ∃ less, fuel = less + 1 := ⟨fuel - 1, by simp at enough; omega⟩
      cases first with
      | true => exact absurd rfl (started rfl)
      | false => rfl
  | @cons text member others members reads continues _ inductionHypothesis =>
      obtain ⟨fuel, rfl⟩ : ∃ less, fuel = less + 1 := ⟨fuel - 1, by simp at enough; omega⟩
      have left := inductionHypothesis false (by simp) (by simpa using enough)
      rw [List.append_assoc]
      unfold readMembers?
      split
      · next closing =>
          obtain ⟨head, tail, rfl⟩ := List.exists_cons_of_ne_nil (ne_nil_of_reads reads)
          simp only [List.cons_append, List.cons.injEq] at closing
          simp [closing.1] at continues
      · simp [reads, left]

/-- A class that lists what is outside of it is read back. -/
theorem readClass?_negated (reads : ReadsMembers text members) (nonempty : members ≠ [])
    (rest : List Char) :
    readClass? ('^' :: text ++ ']' :: rest) = some (⟨true, members⟩, rest) := by
  have short := reads.length_le
  simp only [List.cons_append, readClass?]
  rw [reads.readMembers?_eq true (fun _ => nonempty)
    (by simp only [List.length_append, List.length_cons]; omega)]
  rfl

end ReadsMembers

theorem readClass?_listed {members : List Char} (nonempty : members ≠ []) (rest : List Char) :
    readClass? (members.flatMap escape ++ ']' :: rest) = some (⟨false, members⟩, rest) := by
  have reads : ReadsMembers (members.flatMap escape) members :=
    .of_written fun character _ => escape_writesMember character
  have short := reads.length_le
  unfold readClass?
  split
  · next text =>
      obtain ⟨first, others, rfl⟩ := List.exists_cons_of_ne_nil nonempty
      by_cases isSpecial : first ∈ special
      · simp [escape_of_mem_special isSpecial] at text
      · simp only [List.flatMap_cons, escape_of_not_mem_special isSpecial, List.cons_append,
          List.nil_append, List.cons.injEq] at text
        exact absurd (text.1 ▸ (by decide : '^' ∈ special)) isSpecial
  · rw [reads.readMembers?_eq true (fun _ => nonempty)
      (by simp only [List.length_append, List.length_cons]; omega)]
    rfl

/-- No repetition mark is at the front of a text. -/
def BeginsItem (text : List Char) : Prop :=
  text.head? ≠ some '*' ∧ text.head? ≠ some '+'

theorem repeatClass_of_beginsItem (characterClass : CharClass) {rest : List Char}
    (begins : BeginsItem rest) :
    repeatClass characterClass rest = (one characterClass, rest) := by
  obtain ⟨notStar, notPlus⟩ := begins
  unfold repeatClass
  split <;> simp_all

theorem repeatClass_star (characterClass : CharClass) {rest : List Char}
    (begins : BeginsItem rest) :
    repeatClass characterClass ('*' :: rest) = (run .greedy characterClass, rest) := by
  obtain ⟨notStar, notPlus⟩ := begins
  unfold repeatClass
  split <;> simp_all

theorem repeatClass_plus (characterClass : CharClass) {rest : List Char}
    (begins : BeginsItem rest) :
    repeatClass characterClass ('+' :: rest) =
      (append (one characterClass) (run .greedy characterClass), rest) := by
  obtain ⟨notStar, notPlus⟩ := begins
  unfold repeatClass
  split <;> simp_all

end Regex

namespace Flavor

variable (flavor : Flavor)

def separatorCharacters : CharClass :=
  ⟨false, flavor.separators⟩

def nameCharacters : CharClass :=
  ⟨true, flavor.sortedInvalidNameChars⟩

/-- The class of name characters has a text that reads as this class. -/
structure HasNameClass : Prop where
  nonempty : flavor.invalidNameChars ≠ []
  /-- A character that cannot be shown is written by two digits. -/
  readable : ∀ character ∈ flavor.invalidNameChars,
    isPrintable character = true ∨ character.toNat < 256

@[simp]
theorem mem_sortedInvalidNameChars (character : Char) :
    character ∈ flavor.sortedInvalidNameChars ↔ character ∈ flavor.invalidNameChars := by
  simp [sortedInvalidNameChars]

@[simp]
theorem separators_ne_nil : flavor.separators ≠ [] := by
  unfold separators
  split <;> simp

theorem classMember_writesMember {character : Char}
    (readable : isPrintable character = true ∨ character.toNat < 256) :
    Regex.WritesMember classMember character := by
  by_cases printable : isPrintable character = true
  · have written := Regex.escape_writesMember character
    have same : classMember character = Regex.escape character := by
      simp [classMember, printable]
    exact ⟨by simpa only [same] using written.reads, by simpa only [same] using written.continues⟩
  · have small : character.toNat < 256 := readable.resolve_left printable
    refine ⟨fun rest => ?_, by simp [classMember, printable]⟩
    have read := Regex.readMember?_hexadecimal small rest
    simpa [classMember, printable, Char.ofNat_toNat] using read

theorem readClass?_separatorClass (rest : List Char) :
    ∃ text, flavor.separatorClass ++ rest = '[' :: text ∧
      Regex.readClass? text = some (flavor.separatorCharacters, rest) := by
  refine ⟨flavor.separators.flatMap Regex.escape ++ ']' :: rest, by simp [separatorClass], ?_⟩
  exact Regex.readClass?_listed flavor.separators_ne_nil rest

theorem readClass?_nameClass (hasClass : flavor.HasNameClass) (rest : List Char) :
    ∃ text, flavor.nameClass ++ rest = '[' :: text ∧
      Regex.readClass? text = some (flavor.nameCharacters, rest) := by
  refine ⟨'^' :: flavor.sortedInvalidNameChars.flatMap classMember ++ ']' :: rest,
    by simp [nameClass], ?_⟩
  apply Regex.ReadsMembers.readClass?_negated
  · refine .of_written fun character member => classMember_writesMember ?_
    exact hasClass.readable character ((flavor.mem_sortedInvalidNameChars character).mp member)
  · obtain ⟨character, member⟩ := List.exists_mem_of_ne_nil _ hasClass.nonempty
    exact List.ne_nil_of_mem ((flavor.mem_sortedInvalidNameChars character).mpr member)

end Flavor

namespace Token

/-- The expression that a token stands for. -/
def regex (flavor : Flavor) : Token → Regex
  | separators =>
      .append (.one flavor.separatorCharacters) (.run .greedy flavor.separatorCharacters)
  | anyCharacter => .one flavor.nameCharacters
  | anyDirectories =>
      .many (Regex.sequence
        [.run .possessive flavor.nameCharacters,
          .append (.one flavor.separatorCharacters)
            (.run .possessive flavor.separatorCharacters)])
  | anyName => .run .greedy flavor.nameCharacters
  | literal character => Regex.literal character

/-- The expression that a token stands for, by the two classes of a flavor. -/
def regexOf (separatorClass nameClass : CharClass) : Token → Regex
  | separators => .append (.one separatorClass) (.run .greedy separatorClass)
  | anyCharacter => .one nameClass
  | anyDirectories =>
      .many (Regex.sequence
        [.run .possessive nameClass,
          .append (.one separatorClass) (.run .possessive separatorClass)])
  | anyName => .run .greedy nameClass
  | literal character => Regex.literal character

theorem regex_eq_regexOf (flavor : Flavor) :
    regex flavor = regexOf flavor.separatorCharacters flavor.nameCharacters := by
  funext token
  cases token <;> rfl

end Token

namespace Regex

variable (flavor : Flavor)

theorem readItem?_separatorClass (readGroup? : List Char → Option (Regex × List Char))
    (rest : List Char) :
    readItem? readGroup? (flavor.separatorClass ++ rest) =
      some (repeatClass flavor.separatorCharacters rest) := by
  obtain ⟨text, shape, read⟩ := flavor.readClass?_separatorClass rest
  simp [shape, readItem?, read]

theorem readItem?_nameClass (hasClass : flavor.HasNameClass)
    (readGroup? : List Char → Option (Regex × List Char)) (rest : List Char) :
    readItem? readGroup? (flavor.nameClass ++ rest) =
      some (repeatClass flavor.nameCharacters rest) := by
  obtain ⟨text, shape, read⟩ := flavor.readClass?_nameClass hasClass rest
  simp [shape, readItem?, read]

theorem readItem?_escape (readGroup? : List Char → Option (Regex × List Char))
    (character : Char) (rest : List Char) :
    readItem? readGroup? (escape character ++ rest) = some (literal character, rest) := by
  by_cases isSpecial : character ∈ special
  · rw [escape_of_mem_special isSpecial]
    simp [readItem?, isBasicAlphanumeric_of_mem_special isSpecial]
  · have plain : ∀ mark ∈ special, character ≠ mark := by
      rintro mark isMark rfl
      exact isSpecial isMark
    have notGroup := plain '(' (by decide)
    have notClass := plain '[' (by decide)
    have notEscape := plain '\\' (by decide)
    rw [escape_of_not_mem_special isSpecial]
    unfold readItem?
    split <;> simp_all

/-- The front of the text of a token is no repetition mark and no end of a sequence. -/
theorem regexText_begins (token : Token) (rest : List Char) :
    BeginsItem (token.regexText flavor ++ rest) ∧
      atSequenceEnd (token.regexText flavor ++ rest) = false := by
  cases token with
  | separators => simp [Token.regexText, Flavor.separatorClass, BeginsItem, atSequenceEnd]
  | anyCharacter => simp [Token.regexText, Flavor.nameClass, BeginsItem, atSequenceEnd]
  | anyDirectories =>
      have opening : "(?:".toList = ['(', '?', ':'] := rfl
      simp [Token.regexText, opening, BeginsItem, atSequenceEnd]
  | anyName => simp [Token.regexText, Flavor.nameClass, BeginsItem, atSequenceEnd]
  | literal character =>
      by_cases isSpecial : character ∈ special
      · have notEnd : character ≠ 'Z' := by
          rintro rfl
          exact absurd isSpecial (by decide)
        simp [Token.regexText, escape_of_mem_special isSpecial, BeginsItem, atSequenceEnd, notEnd]
      · have plain : ∀ mark ∈ special, character ≠ mark := by
          rintro mark isMark rfl
          exact isSpecial isMark
        have notStar := plain '*' (by decide)
        have notPlus := plain '+' (by decide)
        have notClosing := plain ')' (by decide)
        have notEscape := plain '\\' (by decide)
        simp [Token.regexText, escape_of_not_mem_special isSpecial, BeginsItem, atSequenceEnd,
          notStar, notPlus, notClosing, notEscape]

theorem readSequence?_end {fuel : Nat} {text : List Char} (ends : atSequenceEnd text = true) :
    readSequence? (fuel + 1) text = some (sequence [], text) := by
  simp [readSequence?, ends, sequence]

theorem readSequence?_item {fuel : Nat} {text afterItem left : List Char} {item : Regex}
    {others : List Regex} (goesOn : atSequenceEnd text = false)
    (read : readItem? (readSequence? fuel) text = some (item, afterItem))
    (readOthers : readSequence? fuel afterItem = some (sequence others, left)) :
    readSequence? (fuel + 1) text = some (sequence (item :: others), left) := by
  simp [readSequence?, goesOn, read, readOthers, sequence]

theorem readSequence?_group (hasClass : flavor.HasNameClass) {fuel : Nat} (enough : 3 ≤ fuel)
    (rest : List Char) :
    readSequence? fuel
        (flavor.nameClass ++ '*' :: '+' :: (flavor.separatorClass ++ '+' :: '+' :: ')' :: rest)) =
      some (sequence
        [.run .possessive flavor.nameCharacters,
          .append (.one flavor.separatorCharacters)
            (.run .possessive flavor.separatorCharacters)], ')' :: rest) := by
  obtain ⟨fuel, rfl⟩ : ∃ more, fuel = more + 3 := ⟨fuel - 3, by omega⟩
  apply readSequence?_item
  · simp [Flavor.nameClass, atSequenceEnd]
  · rw [readItem?_nameClass flavor hasClass]
    rfl
  apply readSequence?_item
  · simp [Flavor.separatorClass, atSequenceEnd]
  · rw [readItem?_separatorClass flavor]
    rfl
  exact readSequence?_end rfl

/-- The text of a token is read back as its expression, whatever item is behind it. -/
theorem readItem?_regexText (hasClass : flavor.HasNameClass) (token : Token) {fuel : Nat}
    (enough : 3 ≤ fuel) {rest : List Char} (begins : BeginsItem rest) :
    readItem? (readSequence? fuel) (token.regexText flavor ++ rest) =
      some (token.regex flavor, rest) := by
  cases token with
  | separators =>
      simp only [Token.regexText, Token.regex, List.append_assoc, List.singleton_append]
      rw [readItem?_separatorClass, repeatClass_plus _ begins]
  | anyCharacter =>
      simp only [Token.regexText, Token.regex]
      rw [readItem?_nameClass flavor hasClass, repeatClass_of_beginsItem _ begins]
  | anyDirectories =>
      have group := readSequence?_group flavor hasClass enough ('*' :: rest)
      have opening : "(?:".toList = ['(', '?', ':'] := rfl
      have inner : "*+".toList = ['*', '+'] := rfl
      have closing : "++)*".toList = ['+', '+', ')', '*'] := rfl
      simp only [Token.regexText, Token.regex, opening, inner, closing, List.append_assoc,
        List.cons_append, List.nil_append, readItem?, group]
  | anyName =>
      simp only [Token.regexText, Token.regex, List.append_assoc, List.singleton_append]
      rw [readItem?_nameClass flavor hasClass, repeatClass_star _ begins]
  | literal character => exact readItem?_escape _ character rest

theorem readSequence?_regexText (hasClass : flavor.HasNameClass) (tokens : List Token)
    {fuel : Nat} (enough : tokens.length + 3 ≤ fuel) :
    readSequence? fuel (tokens.flatMap (Token.regexText flavor) ++ ['\\', 'Z']) =
      some (sequence (tokens.map (Token.regex flavor)), ['\\', 'Z']) := by
  induction tokens generalizing fuel with
  | nil =>
      obtain ⟨fuel, rfl⟩ : ∃ less, fuel = less + 1 := ⟨fuel - 1, by omega⟩
      exact readSequence?_end rfl
  | cons token tokens inductionHypothesis =>
      obtain ⟨fuel, rfl⟩ : ∃ less, fuel = less + 1 := ⟨fuel - 1, by omega⟩
      simp only [List.length_cons] at enough
      have begins : BeginsItem (tokens.flatMap (Token.regexText flavor) ++ ['\\', 'Z']) := by
        cases tokens with
        | nil => simp [BeginsItem]
        | cons next others =>
            rw [List.flatMap_cons, List.append_assoc]
            exact (regexText_begins flavor next _).1
      rw [List.flatMap_cons, List.append_assoc]
      exact readSequence?_item (regexText_begins flavor token _).2
        (readItem?_regexText flavor hasClass token (by omega) begins)
        (inductionHypothesis (by omega))

theorem length_le_length_regexText (tokens : List Token) :
    tokens.length ≤ (tokens.flatMap (Token.regexText flavor)).length := by
  induction tokens with
  | nil => simp
  | cons token tokens inductionHypothesis =>
      have positive : token.regexText flavor ≠ [] := by
        intro nothing
        have goesOn := (regexText_begins flavor token []).2
        simp [nothing, atSequenceEnd] at goesOn
      have counted := List.length_pos_iff.mpr positive
      simp only [List.flatMap_cons, List.length_append, List.length_cons]
      omega

end Regex

theorem Regex.ofText?_compile {flavor : Flavor} (hasClass : flavor.HasNameClass)
    (specification : List Char) :
    Regex.ofText? (compile flavor specification) =
      some (Regex.sequence ((Token.scan flavor specification).map (Token.regex flavor))) := by
  have short := Regex.length_le_length_regexText flavor (Token.scan flavor specification)
  have enough : (Token.scan flavor specification).length + 3 ≤
      (bodyText flavor specification ++ ['\\', 'Z']).length + 1 := by
    simp only [bodyText, List.length_append, List.length_cons, List.length_nil]
    omega
  have read := Regex.readSequence?_regexText flavor hasClass _ enough
  simp only [compile, bodyText, List.cons_append, Regex.ofText?] at read ⊢
  rw [read]
  rfl

end FileSpec
