/-
# Texts that are joined from parts

The writers put parts behind one another with a separator between them. Behind the first
part each one has a separator in front, and a separator begins with a break, so every word
in such a text ends where its part does. Words with spaces between them are therefore the
words of the joined text.
-/

import ChronoSat.Proofs.Text.Cutting
import ChronoSat.Proofs.Text.Numeral

namespace ChronoSat.Text

/-! ## Words in a text -/

section Words

variable {τ : Type} {breaks : Char → Option (List τ)} {token : String → τ} {word : String}
  {text : List Char} {tokens : List τ}

/-- A word is not empty and has no break in it. -/
def Unbroken (breaks : Char → Option (List τ)) (word : String) : Prop :=
  word.toList ≠ [] ∧ ∀ character ∈ word.toList, breaks character = none

/-- A text ends or goes on with a break. -/
def Stops (breaks : Char → Option (List τ)) (text : List Char) : Prop :=
  ∀ character, text.head? = some character → breaks character ≠ none

-- The characters of the word are looked at, not all there are.
instance : Decidable (Unbroken breaks word) :=
  @instDecidableAnd _ _ inferInstance (List.decidableBAll _ _)

/-- Two words without a space between them are one. -/
theorem Unbroken.append {ending : String} (unbroken : Unbroken breaks word)
    (more : Unbroken breaks ending) : Unbroken breaks (word ++ ending) := by
  rw [Unbroken, String.toList_append]
  exact ⟨List.append_ne_nil_of_left_ne_nil unbroken.1 _,
    List.forall_mem_append.mpr ⟨unbroken.2, more.2⟩⟩

theorem stops_nil : Stops breaks [] := nofun

theorem stops_cons {character : Char} (text : List Char) (ends : breaks character ≠ none) :
    Stops breaks (character :: text) := by
  rintro _ ⟨⟩
  exact ends

/-- A word in front of a break is a token. -/
theorem Unbroken.lexed (unbroken : Unbroken breaks word) (stops : Stops breaks text)
    (rest : Lexed breaks token text tokens) :
    Lexed breaks token (word.toList ++ text) (token word :: tokens) := by
  have lexed := Lexed.word unbroken.1 unbroken.2 stops rest
  rwa [String.ofList_toList] at lexed

end Words

/-! ## Parts behind separators -/

/-- Parts behind the first, each with a separator in front. -/
def joined (separator : String) (parts : List String) : List Char :=
  parts.flatMap fun part => separator.toList ++ part.toList

theorem joined_cons (separator part : String) (parts : List String) :
    joined separator (part :: parts) =
      separator.toList ++ (part.toList ++ joined separator parts) := by
  simp [joined]

theorem toList_intercalate (separator first : String) (rest : List String) :
    (separator.intercalate (first :: rest)).toList = first.toList ++ joined separator rest := by
  induction rest generalizing first with
  | nil => simp [joined]
  | cons second rest ih =>
      rw [String.intercalate_cons_of_ne_nil (List.cons_ne_nil _ _), String.toList_append,
        String.toList_append, ih, joined_cons, List.append_assoc]

/-! ## Words with spaces between them -/

variable {words : List String}

theorem blankBreak_space : blankBreak ' ' = some [] := by decide

theorem unbroken_toString (value : Int) : Unbroken blankBreak (toString value) := by
  refine ⟨toList_toString_int_ne_nil value, fun character member => ?_⟩
  rcases mem_toString_int member with rfl | digit
  · decide
  · simp [blankBreak, isBlank_of_isDigit digit]

theorem unbroken_toString_nat (number : Nat) : Unbroken blankBreak (toString number) :=
  unbroken_toString (number : Int)

theorem stops_joined_space (words : List String) : Stops blankBreak (joined " " words) := by
  cases words with
  | nil => exact stops_nil
  | cons word rest =>
      have space : blankBreak ' ' ≠ none := by decide
      rw [joined_cons]
      exact stops_cons _ space

theorem isWords_joined (unbroken : ∀ word ∈ words, Unbroken blankBreak word) :
    IsWords (joined " " words) words := by
  induction words with
  | nil => exact .nil
  | cons word rest ih =>
      obtain ⟨here, others⟩ := List.forall_mem_cons.mp unbroken
      rw [joined_cons]
      exact .stop blankBreak_space (here.lexed (stops_joined_space rest) (ih others))

/-- Words with spaces between them are the words of the text. -/
theorem isWords_intercalate (unbroken : ∀ word ∈ words, Unbroken blankBreak word) :
    IsWords (" ".intercalate words).toList words := by
  cases words with
  | nil => exact .nil
  | cons first rest =>
      obtain ⟨here, others⟩ := List.forall_mem_cons.mp unbroken
      rw [toList_intercalate]
      exact here.lexed (stops_joined_space rest) (isWords_joined others)

/-- Words with spaces between them are written alike only if they are the same words. -/
theorem intercalate_space_inj {others : List String}
    (unbroken : ∀ word ∈ words, Unbroken blankBreak word)
    (unbrokenOthers : ∀ word ∈ others, Unbroken blankBreak word)
    (same : " ".intercalate words = " ".intercalate others) : words = others := by
  have left := words_eq_iff.mpr (isWords_intercalate unbroken)
  have right := words_eq_iff.mpr (isWords_intercalate unbrokenOthers)
  rw [← left, same, right]

/-- The first word of a text ends at the first space. -/
theorem head?_words {text word : String} (unbroken : Unbroken blankBreak word)
    (starts : word.toList ++ [' '] <+: text.toList) : (Text.words text).head? = some word := by
  obtain ⟨rest, whole⟩ := starts
  rw [List.append_assoc, List.singleton_append] at whole
  have space : blankBreak ' ' ≠ none := by decide
  have behind : IsWords rest (Text.wordsFrom [] rest) :=
    (wordsFrom_eq_lexFrom [] rest).symm ▸ lexFrom_eq_iff.mp rfl
  have taken := unbroken.lexed (stops_cons rest space) (.stop blankBreak_space behind)
  rw [whole] at taken
  rw [words_eq_iff.mpr taken]
  rfl

/-- No line ends between words with spaces between them. -/
theorem newline_not_mem_intercalate (unbroken : ∀ word ∈ words, Unbroken blankBreak word) :
    '\n' ∉ (" ".intercalate words).toList := by
  have inner : ∀ word ∈ words, '\n' ∉ word.toList := by
    intro word member inside
    have unblank := (unbroken word member).2 '\n' inside
    revert unblank
    decide
  cases words with
  | nil => simp
  | cons first rest =>
      obtain ⟨here, others⟩ := List.forall_mem_cons.mp inner
      rw [toList_intercalate, List.mem_append, not_or]
      refine ⟨here, fun inside => ?_⟩
      obtain ⟨word, member, found⟩ := List.mem_flatMap.mp inside
      rcases List.mem_append.mp found with space | inWord
      · revert space
        decide
      · exact others word member inWord

end ChronoSat.Text
