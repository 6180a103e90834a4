/-! Blank characters and the words between them. Main statements: no word is empty, no word holds
a separator, and a text without separators is one word. -/

namespace Interop

/-- The characters with the Unicode property White_Space. -/
def isBlank (c : Char) : Bool :=
  let n := c.toNat
  (0x9 ≤ n && n ≤ 0xD) || n == 0x20 || n == 0x85 || n == 0xA0 || n == 0x1680
    || (0x2000 ≤ n && n ≤ 0x200A) || n == 0x2028 || n == 0x2029 || n == 0x202F
    || n == 0x205F || n == 0x3000

namespace Text

/-- Puts a word in front of others, unless it is empty. -/
def consWord (word : List Char) (others : List (List Char)) : List (List Char) :=
  if word.isEmpty then others else word :: others

/-- The characters up to the first separator, and the words after it. -/
def firstWord (isSeparator : Char → Bool) : List Char → List Char × List (List Char)
  | [] => ([], [])
  | c :: rest =>
    let (word, others) := firstWord isSeparator rest
    if isSeparator c then ([], consWord word others) else (c :: word, others)

/-- The longest pieces of a text that hold no separator, in order and without the empty ones. -/
def words (isSeparator : Char → Bool) (text : List Char) : List (List Char) :=
  consWord (firstWord isSeparator text).1 (firstWord isSeparator text).2

theorem mem_consWord {word w : List Char} {others : List (List Char)} :
    w ∈ consWord word others ↔ (w = word ∧ word ≠ []) ∨ w ∈ others := by
  unfold consWord
  cases word <;> simp

theorem firstWord_isSeparator (p : Char → Bool) (text : List Char) :
    (∀ c ∈ (firstWord p text).1, p c = false)
      ∧ ∀ w ∈ (firstWord p text).2, w ≠ [] ∧ ∀ c ∈ w, p c = false := by
  induction text with
  | nil => simp [firstWord]
  | cons c rest ih =>
      cases hc : p c with
      | true =>
          simp only [firstWord, hc, if_true, List.not_mem_nil, false_implies, implies_true,
            true_and, mem_consWord]
          rintro w (⟨rfl, hw⟩ | hw)
          · exact ⟨hw, ih.1⟩
          · exact ih.2 w hw
      | false =>
          simp only [firstWord, hc, Bool.false_eq_true, if_false, List.mem_cons, forall_eq_or_imp]
          exact ⟨⟨trivial, ih.1⟩, ih.2⟩

/-- A word is not empty and holds no separator. -/
theorem not_isSeparator_of_mem_words {p : Char → Bool} {text w : List Char}
    (hw : w ∈ words p text) : w ≠ [] ∧ ∀ c ∈ w, p c = false := by
  rcases mem_consWord.mp hw with ⟨rfl, hne⟩ | hw
  · exact ⟨hne, (firstWord_isSeparator p text).1⟩
  · exact (firstWord_isSeparator p text).2 w hw

theorem firstWord_of_forall {p : Char → Bool} {text : List Char} (h : ∀ c ∈ text, p c = false) :
    firstWord p text = (text, []) := by
  induction text with
  | nil => rfl
  | cons c rest ih =>
      simp [firstWord, ih fun d hd => h d (List.mem_cons_of_mem c hd), h c (List.mem_cons_self ..)]

/-- A text without separators is one word, or none when it is empty. -/
theorem words_of_forall {p : Char → Bool} {text : List Char} (h : ∀ c ∈ text, p c = false) :
    words p text = consWord text [] := by
  simp [words, firstWord_of_forall h]

end Text

end Interop
