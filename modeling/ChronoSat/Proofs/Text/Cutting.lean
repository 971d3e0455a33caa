/-
# Taking texts apart

The readers take a row apart in two ways. Lines and the runs of integers in a line
are cut at a separator: every separator ends a piece, which may be empty, and what
is behind the last one is a piece only if it is not. Words and tokens are maximal
runs of characters between breaks, and a break may be a token of its own.

Both ways are described here without saying how they are gone through. Each
description fits exactly one cutting, which is the one that the readers make.
-/

import ChronoSat.Dimacs.Reader
import ChronoSat.Infix.Token

namespace ChronoSat.Text

/-! ## Pieces in front of separators -/

section Pieces

variable {α : Type} {separator : α} {row piece : List α} {pieces : List (List α)}

/-- The pieces of a row that is cut at a separator. -/
inductive Pieces (separator : α) : List α → List (List α) → Prop
  /-- Nothing is no piece. -/
  | none : Pieces separator [] []
  /-- What no separator ends is a piece if it is something. -/
  | last {piece : List α} (whole : separator ∉ piece) (nonempty : piece ≠ []) :
      Pieces separator piece [piece]
  /-- A separator ends a piece, which may be empty. -/
  | ended {piece rest : List α} {pieces : List (List α)} (whole : separator ∉ piece)
      (others : Pieces separator rest pieces) :
      Pieces separator (piece ++ separator :: rest) (piece :: pieces)

/-- The pieces hold no more than what was cut. -/
theorem Pieces.length_flatten_le (cut : Pieces separator row pieces) :
    pieces.flatten.length ≤ row.length := by
  induction cut with
  | none => exact Nat.le_refl 0
  | last => simp
  | ended _ _ ih =>
      simp only [List.flatten_cons, List.length_append, List.length_cons]
      omega

variable [DecidableEq α]

/-- The pieces of a row whose current piece has already collected the given elements, the
latest first. -/
def piecesFrom (separator : α) (collected : List α) : List α → List (List α)
  | [] => if collected.isEmpty then [] else [collected.reverse]
  | element :: rest =>
    if element = separator then collected.reverse :: piecesFrom separator [] rest
    else piecesFrom separator (element :: collected) rest

/-- What holds no separator is collected. -/
theorem piecesFrom_append (whole : separator ∉ piece) (collected rest : List α) :
    piecesFrom separator collected (piece ++ rest) =
      piecesFrom separator (piece.reverse ++ collected) rest := by
  induction piece generalizing collected with
  | nil => rfl
  | cons element piece ih =>
      rw [List.mem_cons, not_or] at whole
      rw [List.cons_append, piecesFrom, if_neg (Ne.symm whole.1), ih whole.2]
      simp

/-- A row has no other pieces than those it is cut into. -/
theorem Pieces.piecesFrom_eq (cut : Pieces separator row pieces) :
    piecesFrom separator [] row = pieces := by
  induction cut with
  | none => rfl
  | @last piece whole nonempty =>
      have collected := piecesFrom_append whole [] []
      simp only [List.append_nil] at collected
      rw [collected, piecesFrom]
      simp [nonempty]
  | ended whole _ ih =>
      rw [piecesFrom_append whole, piecesFrom, if_pos rfl, ih]
      simp

theorem pieces_piecesFrom (row collected : List α) (whole : separator ∉ collected) :
    Pieces separator (collected.reverse ++ row) (piecesFrom separator collected row) := by
  have turned : separator ∉ collected.reverse := mt List.mem_reverse.mp whole
  induction row generalizing collected with
  | nil =>
      rw [piecesFrom, List.append_nil]
      cases collected with
      | nil => exact .none
      | cons element earlier => exact .last turned (by simp)
  | cons element rest ih =>
      rw [piecesFrom]
      split
      · next same =>
          subst same
          exact .ended turned (ih [] List.not_mem_nil List.not_mem_nil)
      · next different =>
          have longer : separator ∉ element :: collected := by simp [Ne.symm different, whole]
          simpa using ih (element :: collected) longer (mt List.mem_reverse.mp longer)

theorem piecesFrom_eq_iff : piecesFrom separator [] row = pieces ↔ Pieces separator row pieces := by
  constructor
  · rintro rfl
    exact pieces_piecesFrom row [] List.not_mem_nil
  · exact Pieces.piecesFrom_eq

end Pieces

theorem linesFrom_eq_piecesFrom (collected bytes : List UInt8) :
    Dimacs.linesFrom collected bytes = piecesFrom Dimacs.newline collected bytes := by
  induction bytes generalizing collected with
  | nil => rfl
  | cons byte rest ih => rw [Dimacs.linesFrom, piecesFrom, ih, ih]

/-- The lines of a file are what it is cut into at the line ends. -/
theorem lines_eq_iff {bytes : List UInt8} {lines : List (List UInt8)} :
    Dimacs.lines bytes = lines ↔ Pieces Dimacs.newline bytes lines := by
  rw [Dimacs.lines, linesFrom_eq_piecesFrom, piecesFrom_eq_iff]

/-! ## Words between breaks -/

section Lexed

variable {τ : Type} {breaks : Char → Option (List τ)} {word : String → τ}
  {text chars : List Char} {tokens : List τ}

/-- The tokens of a text in which some characters are breaks, each standing for the tokens
that `breaks` gives it, and all others make up words. Words are as long as can be. -/
inductive Lexed (breaks : Char → Option (List τ)) (word : String → τ) :
    List Char → List τ → Prop
  | nil : Lexed breaks word [] []
  | stop {character : Char} {own : List τ} {text : List Char} {tokens : List τ}
      (stops : breaks character = some own) (rest : Lexed breaks word text tokens) :
      Lexed breaks word (character :: text) (own ++ tokens)
  | word {chars text : List Char} {tokens : List τ} (nonempty : chars ≠ [])
      (inner : ∀ character ∈ chars, breaks character = none)
      (maximal : ∀ character, text.head? = some character → breaks character ≠ none)
      (rest : Lexed breaks word text tokens) :
      Lexed breaks word (chars ++ text) (word (String.ofList chars) :: tokens)

/-- The tokens of a text whose current word has already collected the given characters,
last character first. -/
def lexFrom (breaks : Char → Option (List τ)) (word : String → τ) (collected : List Char) :
    List Char → List τ
  | [] => (finishWord collected).map word
  | character :: rest =>
    match breaks character with
    | some own => (finishWord collected).map word ++ (own ++ lexFrom breaks word [] rest)
    | none => lexFrom breaks word (character :: collected) rest

/-- What holds no break is collected. -/
theorem lexFrom_append (inner : ∀ character ∈ chars, breaks character = none)
    (collected text : List Char) :
    lexFrom breaks word collected (chars ++ text) =
      lexFrom breaks word (chars.reverse ++ collected) text := by
  induction chars generalizing collected with
  | nil => rfl
  | cons character chars ih =>
      rw [List.forall_mem_cons] at inner
      rw [List.cons_append, lexFrom, inner.1]
      simp [ih inner.2]

/-- The end and every break finish the word that is being collected. -/
theorem lexFrom_of_maximal
    (maximal : ∀ character, text.head? = some character → breaks character ≠ none)
    (collected : List Char) :
    lexFrom breaks word collected text =
      (finishWord collected).map word ++ lexFrom breaks word [] text := by
  cases text with
  | nil => simp [lexFrom]
  | cons character rest =>
      obtain ⟨own, stops⟩ := Option.ne_none_iff_exists'.mp (maximal character rfl)
      simp [lexFrom, stops]

/-- A text has no other tokens than those it is taken apart into. -/
theorem Lexed.lexFrom_eq (lexed : Lexed breaks word text tokens) :
    lexFrom breaks word [] text = tokens := by
  induction lexed with
  | nil => rfl
  | stop stops _ ih => simp [lexFrom, stops, ih]
  | @word chars text tokens nonempty inner maximal _ ih =>
      rw [lexFrom_append inner, lexFrom_of_maximal maximal, ih, List.append_nil]
      obtain ⟨last, others, turned⟩ :=
        List.exists_cons_of_ne_nil (List.reverse_ne_nil_iff.mpr nonempty)
      rw [turned, finishWord_cons, ← turned, List.reverse_reverse]
      rfl

/-- If a break stands for one token at most there are no more tokens than characters. -/
theorem Lexed.length_le
    (single : ∀ character own, breaks character = some own → own.length ≤ 1)
    (lexed : Lexed breaks word text tokens) : tokens.length ≤ text.length := by
  induction lexed with
  | nil => exact Nat.le_refl 0
  | stop stops _ ih =>
      have one := single _ _ stops
      simp only [List.length_append, List.length_cons]
      omega
  | word nonempty _ _ _ ih =>
      have some := List.length_pos_iff.mpr nonempty
      simp only [List.length_append, List.length_cons]
      omega

theorem lexed_of_maximal {collected : List Char}
    (inner : ∀ character ∈ collected, breaks character = none)
    (maximal : ∀ character, text.head? = some character → breaks character ≠ none)
    (rest : Lexed breaks word text tokens) :
    Lexed breaks word (collected.reverse ++ text) ((finishWord collected).map word ++ tokens) := by
  cases collected with
  | nil => exact rest
  | cons character earlier =>
      exact .word (by simp) (fun other member => inner other (List.mem_reverse.mp member))
        maximal rest

theorem lexed_lexFrom (text collected : List Char)
    (inner : ∀ character ∈ collected, breaks character = none) :
    Lexed breaks word (collected.reverse ++ text) (lexFrom breaks word collected text) := by
  induction text generalizing collected with
  | nil => simpa [lexFrom] using lexed_of_maximal inner (by simp) Lexed.nil
  | cons character rest ih =>
      cases stops : breaks character with
      | none =>
          have longer : ∀ other ∈ character :: collected, breaks other = none := by
            simpa [stops] using inner
          simpa [lexFrom, stops] using ih (character :: collected) longer
      | some own =>
          have behind : Lexed breaks word rest (lexFrom breaks word [] rest) :=
            ih [] nofun
          simpa [lexFrom, stops] using lexed_of_maximal inner (by simp [stops]) (.stop stops behind)

theorem lexFrom_eq_iff : lexFrom breaks word [] text = tokens ↔ Lexed breaks word text tokens := by
  constructor
  · rintro rfl
    exact lexed_lexFrom text [] nofun
  · exact Lexed.lexFrom_eq

end Lexed

/-- Blank characters stand for nothing. -/
def blankBreak (character : Char) : Option (List String) :=
  if isBlank character then some [] else none

/-- The words of a text: its maximal runs of characters that are not blank. -/
def IsWords : List Char → List String → Prop :=
  Lexed blankBreak id

theorem IsWords.length_le {text : List Char} {words : List String} (isWords : IsWords text words) :
    words.length ≤ text.length := by
  refine Lexed.length_le (fun character own stops => ?_) isWords
  unfold blankBreak at stops
  split at stops <;> cases stops
  decide

theorem wordsFrom_eq_lexFrom (collected text : List Char) :
    wordsFrom collected text = lexFrom blankBreak id collected text := by
  induction text generalizing collected with
  | nil => simp [wordsFrom, lexFrom]
  | cons character rest ih =>
      cases blank : isBlank character <;> simp [wordsFrom, lexFrom, blankBreak, blank, ih]

theorem words_eq_iff {text : String} {found : List String} :
    words text = found ↔ IsWords text.toList found := by
  rw [words, wordsFrom_eq_lexFrom, lexFrom_eq_iff, IsWords]

end ChronoSat.Text

namespace ChronoSat.Infix

/-- Parentheses stand for themselves and blank characters for nothing. -/
def tokenBreak (character : Char) : Option (List Token) :=
  if character = '(' then some [.opening]
  else if character = ')' then some [.closing]
  else if Text.isBlank character then some []
  else none

/-- The tokens of a text: parentheses, and maximal runs of characters that are neither
parentheses nor blank. -/
def IsTokens : List Char → List Token → Prop :=
  Text.Lexed tokenBreak Token.word

theorem IsTokens.length_le {text : List Char} {tokens : List Token}
    (isTokens : IsTokens text tokens) : tokens.length ≤ text.length := by
  refine Text.Lexed.length_le (fun character own stops => ?_) isTokens
  unfold tokenBreak at stops
  split at stops
  · cases stops
    decide
  split at stops
  · cases stops
    decide
  split at stops <;> cases stops
  decide

theorem tokensFrom_eq_lexFrom (collected text : List Char) :
    tokensFrom collected text = Text.lexFrom tokenBreak .word collected text := by
  induction text generalizing collected with
  | nil => rfl
  | cons character rest ih =>
      by_cases opens : character = '('
      · simp [tokensFrom, Text.lexFrom, tokenBreak, finishToken, opens, ih]
      by_cases closes : character = ')'
      · simp [tokensFrom, Text.lexFrom, tokenBreak, finishToken, closes, ih]
      cases blank : Text.isBlank character <;>
        simp [tokensFrom, Text.lexFrom, tokenBreak, finishToken, opens, closes, blank, ih]

theorem tokens_eq_iff {text : String} {found : List Token} :
    tokens text = found ↔ IsTokens text.toList found := by
  rw [tokens, tokensFrom_eq_lexFrom, Text.lexFrom_eq_iff, IsTokens]

end ChronoSat.Infix
