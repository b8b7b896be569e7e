import FileSpec.Pattern.Regex

/-!
Matching a whole text, which is read once from its end.

Reading asks an expression about each end piece of the text, the shortest first: does it match,
with what is behind it in a larger expression? For the next longer piece, each part of the
expression has to remember one answer only, so no text is read twice and nothing is tried in
vain. `isMatch_iff` says that this finds the matches of the expression.
-/

set_option autoImplicit false

namespace FileSpec

inductive Reader where
  | empty
  /-- `behind` is whether what is behind the character matches the piece. -/
  | one (characterClass : CharClass) (behind : Bool)
  /-- `answer` is the own answer for the piece. -/
  | run (keeping : Keeping) (characterClass : CharClass) (answer : Bool)
  | append (first second : Reader)
  | many (body : Reader)

structure Reading where
  answer : Bool
  reader : Reader

/-- Begin with the empty piece; `behind` is whether what is behind the expression matches it. -/
def Regex.atEnd : Regex → (behind : Bool) → Reading
  | empty, behind => ⟨behind, .empty⟩
  | one characterClass, behind => ⟨false, .one characterClass behind⟩
  | run keeping characterClass, behind => ⟨behind, .run keeping characterClass behind⟩
  | append first second, behind =>
      let later := second.atEnd behind
      let now := first.atEnd later.answer
      ⟨now.answer, .append now.reader later.reader⟩
  | many body, behind => ⟨behind, .many (body.atEnd behind).reader⟩

def Keeping.runAnswer (keeping : Keeping) (goesOn longer ended : Bool) : Bool :=
  match keeping with
  | .greedy => (goesOn && longer) || ended
  | .possessive => if goesOn then longer else ended

/-- Go on to the piece with one more character in front; `behind` is whether what is behind the
expression matches that piece. A round that takes nothing counts for none. -/
def Reader.step (character : Char) : Reader → (behind : Bool) → Reading
  | empty, behind => ⟨behind, empty⟩
  | one characterClass later, behind =>
      ⟨characterClass.contains character && later, one characterClass behind⟩
  | run keeping characterClass longer, behind =>
      let answer := keeping.runAnswer (characterClass.contains character) longer behind
      ⟨answer, run keeping characterClass answer⟩
  | append first second, behind =>
      let later := second.step character behind
      let now := first.step character later.answer
      ⟨now.answer, append now.reader later.reader⟩
  | many body, behind =>
      let answer := behind || (body.step character false).answer
      ⟨answer, many (body.step character answer).reader⟩

namespace Regex

/-- Read a text from its end; `behind` tells of each end piece whether what is behind the
expression matches it. -/
def read (regex : Regex) (behind : List Char → Bool) : List Char → Reading
  | [] => regex.atEnd (behind [])
  | character :: rest =>
      (read regex behind rest).reader.step character (behind (character :: rest))

def isMatch (regex : Regex) (text : List Char) : Bool :=
  (regex.read List.isEmpty text).answer

theorem read_congr (regex : Regex) {first second : List Char → Bool} {text : List Char}
    (same : ∀ piece, piece.length ≤ text.length → first piece = second piece) :
    regex.read first text = regex.read second text := by
  induction text with
  | nil => simp only [read, same [] (Nat.le_refl _)]
  | cons character rest inductionHypothesis =>
      simp only [read, same _ (Nat.le_refl _)]
      rw [inductionHypothesis fun piece short => same piece (Nat.le_succ_of_le short)]

@[simp]
theorem reader_empty (behind : List Char → Bool) (text : List Char) :
    (empty.read behind text).reader = .empty := by
  induction text with
  | nil => rfl
  | cons character rest inductionHypothesis => simp only [read, inductionHypothesis, Reader.step]

@[simp]
theorem reader_one (characterClass : CharClass) (behind : List Char → Bool)
    (text : List Char) :
    ((one characterClass).read behind text).reader = .one characterClass (behind text) := by
  induction text with
  | nil => rfl
  | cons character rest inductionHypothesis => simp only [read, inductionHypothesis, Reader.step]

@[simp]
theorem reader_run (keeping : Keeping) (characterClass : CharClass) (behind : List Char → Bool)
    (text : List Char) :
    ((run keeping characterClass).read behind text).reader =
      .run keeping characterClass ((run keeping characterClass).read behind text).answer := by
  induction text with
  | nil => rfl
  | cons character rest inductionHypothesis => simp only [read, inductionHypothesis, Reader.step]

theorem read_append (first second : Regex) (behind : List Char → Bool) (text : List Char) :
    (append first second).read behind text =
      ⟨(first.read (fun piece => (second.read behind piece).answer) text).answer,
        .append (first.read (fun piece => (second.read behind piece).answer) text).reader
          (second.read behind text).reader⟩ := by
  induction text with
  | nil => rfl
  | cons character rest inductionHypothesis => simp only [read, inductionHypothesis, Reader.step]

@[simp]
theorem reader_many (body : Regex) (behind : List Char → Bool) (text : List Char) :
    ((many body).read behind text).reader =
      .many (body.read (fun piece => ((many body).read behind piece).answer) text).reader := by
  induction text with
  | nil => rfl
  | cons character rest inductionHypothesis => simp only [read, inductionHypothesis, Reader.step]

theorem answer_many_cons (body : Regex) (behind : List Char → Bool) (character : Char)
    (rest : List Char) :
    ((many body).read behind (character :: rest)).answer =
      (behind (character :: rest) ||
        (body.read (fun piece => decide (piece.length ≤ rest.length) &&
          ((many body).read behind piece).answer) (character :: rest)).answer) := by
  have sameBelow : body.read (fun piece => decide (piece.length ≤ rest.length) &&
      ((many body).read behind piece).answer) rest =
        body.read (fun piece => ((many body).read behind piece).answer) rest :=
    read_congr body fun piece short => by simp only [short, decide_true, Bool.true_and]
  have tooLong : ¬ (character :: rest).length ≤ rest.length := by simp
  rw [read, reader_many]
  simp only [Reader.step, read, sameBelow, tooLong, decide_false, Bool.false_and]

theorem answer_run_iff (keeping : Keeping) (characterClass : CharClass)
    (behind : List Char → Bool) (text : List Char) :
    ((run keeping characterClass).read behind text).answer = true ↔
      ∃ rest, (run keeping characterClass).Leaves text rest ∧ behind rest = true := by
  induction text with
  | nil =>
      constructor
      · intro here
        cases keeping with
        | greedy => exact ⟨[], .greedyEnd, here⟩
        | possessive => exact ⟨[], .possessiveEnd rfl, here⟩
      · rintro ⟨rest, leaves, there⟩
        cases leaves <;> exact there
  | cons character text inductionHypothesis =>
      have step : ((run keeping characterClass).read behind (character :: text)).answer =
          keeping.runAnswer (characterClass.contains character)
            ((run keeping characterClass).read behind text).answer
            (behind (character :: text)) := by
        rw [read, reader_run]
        rfl
      rw [step]
      constructor
      · intro answered
        cases keeping with
        | greedy =>
            simp only [Keeping.runAnswer, Bool.or_eq_true, Bool.and_eq_true] at answered
            rcases answered with ⟨goesOn, longer⟩ | ended
            · obtain ⟨rest, leaves, there⟩ := inductionHypothesis.1 longer
              exact ⟨rest, .runMore goesOn leaves, there⟩
            · exact ⟨character :: text, .greedyEnd, ended⟩
        | possessive =>
            simp only [Keeping.runAnswer] at answered
            split at answered
            · rename_i goesOn
              obtain ⟨rest, leaves, there⟩ := inductionHypothesis.1 answered
              exact ⟨rest, .runMore goesOn leaves, there⟩
            · rename_i stops
              exact ⟨character :: text, .possessiveEnd (by simpa using stops), answered⟩
      · rintro ⟨rest, leaves, there⟩
        cases leaves with
        | runMore goesOn leaves =>
            have longer := inductionHypothesis.2 ⟨rest, leaves, there⟩
            cases keeping <;> simp [Keeping.runAnswer, goesOn, longer]
        | greedyEnd => simp [Keeping.runAnswer, there]
        | possessiveEnd stops =>
            have stopped : characterClass.contains character = false := by simpa using stops
            simp [Keeping.runAnswer, stopped, there]

theorem answer_many_iff (body : Regex)
    (answer_body_iff : ∀ (behind : List Char → Bool) (text : List Char),
      (body.read behind text).answer = true ↔ ∃ rest, body.Leaves text rest ∧ behind rest = true)
    (behind : List Char → Bool) (text : List Char) :
    ((many body).read behind text).answer = true ↔
      ∃ rest, (many body).Leaves text rest ∧ behind rest = true := by
  induction bound : text.length using Nat.strongRecOn generalizing text with
  | ind length inductionHypothesis =>
      subst bound
      cases text with
      | nil =>
          constructor
          · exact fun here => ⟨[], .manyEnd, here⟩
          · rintro ⟨rest, leaves, there⟩
            cases leaves with
            | manyEnd => exact there
            | manyMore _ shorter => exact absurd shorter (Nat.not_lt_zero _)
      | cons character text =>
          rw [answer_many_cons, Bool.or_eq_true, answer_body_iff]
          constructor
          · rintro (ended | ⟨middle, leaves, left⟩)
            · exact ⟨character :: text, .manyEnd, ended⟩
            · simp only [Bool.and_eq_true, decide_eq_true_eq] at left
              have shorter : middle.length < (character :: text).length :=
                Nat.lt_succ_of_le left.1
              obtain ⟨rest, more, there⟩ :=
                (inductionHypothesis middle.length shorter middle rfl).1 left.2
              exact ⟨rest, .manyMore leaves shorter more, there⟩
          · rintro ⟨rest, leaves, there⟩
            cases leaves with
            | manyEnd => exact .inl there
            | @manyMore _ _ middle _ round shorter more =>
                refine .inr ⟨middle, round, ?_⟩
                simp only [Bool.and_eq_true, decide_eq_true_eq]
                exact ⟨Nat.le_of_lt_succ shorter,
                  (inductionHypothesis middle.length shorter middle rfl).2 ⟨rest, more, there⟩⟩

theorem answer_read_iff (regex : Regex) (behind : List Char → Bool) (text : List Char) :
    (regex.read behind text).answer = true ↔
      ∃ rest, regex.Leaves text rest ∧ behind rest = true := by
  induction regex generalizing behind text with
  | empty =>
      have answered : (empty.read behind text).answer = behind text := by
        cases text with
        | nil => rfl
        | cons character rest =>
            rw [read, reader_empty]
            rfl
      rw [answered]
      constructor
      · exact fun here => ⟨text, .empty, here⟩
      · rintro ⟨rest, leaves, there⟩
        cases leaves
        exact there
  | one characterClass =>
      cases text with
      | nil =>
          constructor
          · exact fun never => nomatch never
          · rintro ⟨rest, leaves, there⟩
            cases leaves
      | cons character text =>
          rw [read, reader_one]
          simp only [Reader.step, Bool.and_eq_true]
          constructor
          · exact fun ⟨fits, there⟩ => ⟨text, .one fits, there⟩
          · rintro ⟨rest, leaves, there⟩
            cases leaves with
            | one fits => exact ⟨fits, there⟩
  | run keeping characterClass => exact answer_run_iff keeping characterClass behind text
  | append first second firstHypothesis secondHypothesis =>
      rw [read_append, firstHypothesis]
      constructor
      · rintro ⟨middle, leaves, left⟩
        obtain ⟨rest, more, there⟩ := (secondHypothesis behind middle).1 left
        exact ⟨rest, .append leaves more, there⟩
      · rintro ⟨rest, leaves, there⟩
        cases leaves with
        | @append _ _ _ middle _ leaves more =>
            exact ⟨middle, leaves, (secondHypothesis behind middle).2 ⟨rest, more, there⟩⟩
  | many body bodyHypothesis => exact answer_many_iff body bodyHypothesis behind text

/-- A whole text matches if a match leaves nothing of it. -/
theorem isMatch_iff (regex : Regex) (text : List Char) :
    regex.isMatch text = true ↔ regex.Leaves text [] := by
  rw [isMatch, answer_read_iff]
  constructor
  · rintro ⟨rest, leaves, nothing⟩
    rwa [List.isEmpty_iff.1 nothing] at leaves
  · exact fun leaves => ⟨[], leaves, rfl⟩

end Regex

end FileSpec
