import Interop.Proofs.Spelling
import Mathlib.Data.List.TakeWhile
import Mathlib.Data.List.Chain
import Mathlib.Logic.Relation

/-! Texts that write one spelling. They differ by blanks only: at the ends, before pointer markers, and in how
long the runs of blanks are. The spelling is the one text among them that is tidy, and its base is the tidy text
of its words, which pointer markers do not change. Main statement: `canonical_ofString`. -/

namespace Interop.Spelling

open Text Relation

/-! ### Blanks brought together -/

/-- Puts a space in front of a text, unless nothing, a space or a pointer marker stands there. -/
def spaced : List Char → List Char
  | [] => []
  | c :: rest => if c = ' ' ∨ c = '*' then c :: rest else ' ' :: c :: rest

/-- A text with one space for every run of blanks, and with none before a pointer marker or at the end. -/
def squeezed : List Char → List Char
  | [] => []
  | c :: rest => if isBlank c then spaced (squeezed rest) else c :: squeezed rest

theorem squeezed_blank {c : Char} (hc : isBlank c = true) (rest : List Char) :
    squeezed (c :: rest) = spaced (squeezed rest) := by
  rw [squeezed, if_pos hc]

theorem squeezed_of_not_isBlank {c : Char} (hc : isBlank c = false) (rest : List Char) :
    squeezed (c :: rest) = c :: squeezed rest := by
  rw [squeezed, hc, if_neg Bool.false_ne_true]

theorem squeezed_star (rest : List Char) : squeezed ('*' :: rest) = '*' :: squeezed rest :=
  squeezed_of_not_isBlank isBlank_star rest

theorem spaced_of_not_isBlank {c : Char} (hc : isBlank c = false) (hstar : c ≠ '*') (rest : List Char) :
    spaced (c :: rest) = ' ' :: c :: rest := by
  have hspace : c ≠ ' ' := by
    rintro rfl
    rw [isBlank_space] at hc
    cases hc
  rw [spaced, if_neg (not_or.mpr ⟨hspace, hstar⟩)]

theorem spaced_eq_or (text : List Char) : spaced text = text ∨ spaced text = ' ' :: text := by
  cases text with
  | nil => exact .inl rfl
  | cons c rest =>
      rw [spaced]
      split
      · exact .inl rfl
      · exact .inr rfl

theorem spaced_space (rest : List Char) : spaced (' ' :: rest) = ' ' :: rest := by
  rw [spaced, if_pos (Or.inl rfl)]

theorem spaced_star (rest : List Char) : spaced ('*' :: rest) = '*' :: rest := by
  rw [spaced, if_pos (Or.inr rfl)]

theorem spaced_spaced (text : List Char) : spaced (spaced text) = spaced text := by
  cases text with
  | nil => rfl
  | cons c rest =>
      rw [spaced]
      split
      · next hc => rw [spaced, if_pos hc]
      · exact spaced_space _

theorem spaced_append_star (text rest : List Char) :
    spaced (text ++ '*' :: rest) = spaced text ++ '*' :: rest := by
  cases text with
  | nil => exact spaced_star rest
  | cons c text =>
      rw [List.cons_append, spaced, spaced]
      split <;> rfl

/-- A text is squeezed from its back to its front. -/
theorem squeezed_append {back other : List Char} (h : squeezed back = squeezed other) (front : List Char) :
    squeezed (front ++ back) = squeezed (front ++ other) := by
  induction front with
  | nil => exact h
  | cons c front ih => rw [List.cons_append, List.cons_append, squeezed, squeezed, ih]

theorem squeezed_append_star (front rest : List Char) :
    squeezed (front ++ '*' :: rest) = squeezed front ++ '*' :: squeezed rest := by
  induction front with
  | nil => exact squeezed_star rest
  | cons c front ih =>
      rw [List.cons_append, squeezed, squeezed, ih, spaced_append_star]
      split <;> rfl

theorem spaced_squeezed_blanks {blanks : List Char} (hblanks : ∀ c ∈ blanks, isBlank c = true) (rest : List Char) :
    spaced (squeezed (blanks ++ rest)) = spaced (squeezed rest) := by
  induction blanks with
  | nil => rfl
  | cons c blanks ih =>
      obtain ⟨hc, hrest⟩ := List.forall_mem_cons.mp hblanks
      rw [List.cons_append, squeezed_blank hc, spaced_spaced, ih hrest]

theorem squeezed_blanks {blanks : List Char} (hblanks : ∀ c ∈ blanks, isBlank c = true) (hne : blanks ≠ [])
    (rest : List Char) : squeezed (blanks ++ rest) = spaced (squeezed rest) := by
  obtain ⟨c, blanks, rfl⟩ := List.exists_cons_of_ne_nil hne
  obtain ⟨hc, hrest⟩ := List.forall_mem_cons.mp hblanks
  rw [List.cons_append, squeezed_blank hc, spaced_squeezed_blanks hrest]

/-- Blanks vanish before what takes no space in front. -/
theorem squeezed_vanishing {blanks rest : List Char} (hblanks : ∀ c ∈ blanks, isBlank c = true)
    (hrest : spaced (squeezed rest) = squeezed rest) : squeezed (blanks ++ rest) = squeezed rest := by
  by_cases hne : blanks = []
  · rw [hne, List.nil_append]
  · rw [squeezed_blanks hblanks hne, hrest]

theorem dropWhile_spaced (text : List Char) :
    (spaced text).dropWhile (· == ' ') = text.dropWhile (· == ' ') := by
  rcases spaced_eq_or text with h | h
  · rw [h]
  · rw [h, List.dropWhile_cons_of_pos (by rfl)]

/-- Behind an empty word, a word is glued with a space in front. -/
theorem glue_nil_cons {c : Char} (hc : isBlank c = false) (word : List Char) (others : List (List Char)) :
    glue ([] :: (c :: word) :: others) = spaced (glue ((c :: word) :: others)) := by
  obtain ⟨glued, hglued⟩ := exists_glue_cons c word others
  rw [glue_cons_cons]
  split
  · next hstar =>
      obtain rfl : c = '*' := Option.some.inj hstar
      rw [hglued, spaced_star, List.nil_append]
  · next hstar =>
      have hne : c ≠ '*' := fun heq => hstar (congrArg some heq)
      rw [hglued, spaced_of_not_isBlank hc hne, List.nil_append]

/-- The first word, which is empty before a blank, and the others are glued to the squeezed text. -/
theorem squeezed_eq_glue (text : List Char) :
    squeezed text = glue ((firstWord isBlank text).1 :: (firstWord isBlank text).2) := by
  induction text with
  | nil => rfl
  | cons c rest ih =>
      cases hc : isBlank c with
      | false =>
          rw [squeezed_of_not_isBlank hc, ih, firstWord, hc]
          rfl
      | true =>
          obtain ⟨hword, hothers⟩ := firstWord_isSeparator isBlank rest
          rw [squeezed_blank hc, ih, firstWord_separator hc, words]
          generalize (firstWord isBlank rest).1 = word at hword ⊢
          generalize (firstWord isBlank rest).2 = others at hothers ⊢
          cases word with
          | cons d word => exact (glue_nil_cons (hword d List.mem_cons_self) word others).symm
          | nil =>
              cases others with
              | nil => rfl
              | cons next others =>
                  obtain ⟨⟨hne, hnext⟩, -⟩ := List.forall_mem_cons.mp hothers
                  obtain ⟨d, tail, rfl⟩ := List.exists_cons_of_ne_nil hne
                  have hglued := glue_nil_cons (hnext d List.mem_cons_self) tail others
                  change spaced (glue ([] :: (d :: tail) :: others)) = glue ([] :: (d :: tail) :: others)
                  rw [hglued, spaced_spaced]

/-- Words have no space in front. -/
theorem dropWhile_glue {c : Char} (hc : isBlank c = false) (word : List Char) (others : List (List Char)) :
    (glue ((c :: word) :: others)).dropWhile (· == ' ') = glue ((c :: word) :: others) := by
  obtain ⟨glued, hglued⟩ := exists_glue_cons c word others
  have hspace : c ≠ ' ' := by
    rintro rfl
    rw [isBlank_space] at hc
    cases hc
  rw [hglued, List.dropWhile_cons_of_neg (by simpa using hspace)]

/-- The normal form is the squeezed text without a space in front. -/
theorem normalize_eq (text : List Char) : normalize text = (squeezed text).dropWhile (· == ' ') := by
  obtain ⟨hword, hothers⟩ := firstWord_isSeparator isBlank text
  rw [squeezed_eq_glue, normalize, words]
  generalize (firstWord isBlank text).1 = word at hword ⊢
  generalize (firstWord isBlank text).2 = others at hothers ⊢
  cases word with
  | cons c word => exact (dropWhile_glue (hword c List.mem_cons_self) word others).symm
  | nil =>
      cases others with
      | nil => rfl
      | cons next others =>
          obtain ⟨⟨hne, hnext⟩, -⟩ := List.forall_mem_cons.mp hothers
          obtain ⟨c, tail, rfl⟩ := List.exists_cons_of_ne_nil hne
          have hc := hnext c List.mem_cons_self
          rw [glue_nil_cons hc, dropWhile_spaced, dropWhile_glue hc]
          rfl

/-! ### Changes of blanks -/

/-- A change of the blanks in a text that leaves what it spells. -/
inductive Respaces : List Char → List Char → Prop
  | front {blanks : List Char} (hblanks : ∀ c ∈ blanks, isBlank c = true) (text : List Char) :
    Respaces (blanks ++ text) text
  | back {blanks : List Char} (hblanks : ∀ c ∈ blanks, isBlank c = true) (text : List Char) :
    Respaces (text ++ blanks) text
  | marker {blanks : List Char} (hblanks : ∀ c ∈ blanks, isBlank c = true) (before after : List Char) :
    Respaces (before ++ (blanks ++ '*' :: after)) (before ++ '*' :: after)
  | run {blanks others : List Char} (hblanks : ∀ c ∈ blanks, isBlank c = true)
    (hothers : ∀ c ∈ others, isBlank c = true) (hne : blanks ≠ []) (hne' : others ≠ [])
    (before after : List Char) :
    Respaces (before ++ (blanks ++ after)) (before ++ (others ++ after))

theorem Respaces.normalize_eq {text other : List Char} (h : Respaces text other) :
    normalize text = normalize other := by
  rw [Spelling.normalize_eq, Spelling.normalize_eq]
  cases h with
  | front hblanks => rw [← dropWhile_spaced, spaced_squeezed_blanks hblanks, dropWhile_spaced]
  | back hblanks =>
      have hend : spaced (squeezed []) = squeezed [] := rfl
      have hnothing := squeezed_vanishing hblanks hend
      rw [squeezed_append (List.append_nil _ ▸ hnothing), List.append_nil]
  | marker hblanks before after =>
      have hmarked : spaced (squeezed ('*' :: after)) = squeezed ('*' :: after) := by
        rw [squeezed_star, spaced_star]
      rw [squeezed_append (squeezed_vanishing hblanks hmarked)]
  | run hblanks hothers hne hne' before after =>
      rw [squeezed_append ((squeezed_blanks hblanks hne after).trans (squeezed_blanks hothers hne' after).symm)]

/-- A blank makes one run with the blanks behind it, and vanishes before a pointer marker and at the end. -/
theorem eqvGen_cons_spaced {c : Char} (hc : isBlank c = true) (before rest : List Char) :
    EqvGen Respaces (before ++ c :: rest) (before ++ spaced rest) := by
  have hblank : ∀ d ∈ [c], isBlank d = true := by simpa using hc
  have hspace : ∀ d ∈ [' '], isBlank d = true := by simpa using isBlank_space
  cases rest with
  | nil => exact .rel _ _ (by simpa [spaced] using Respaces.back hblank before)
  | cons d rest =>
      rw [spaced]
      split
      · next hd =>
          rcases hd with rfl | rfl
          · have hboth : ∀ d ∈ [c, ' '], isBlank d = true := by simpa using ⟨hc, isBlank_space⟩
            exact .rel _ _ (.run hboth hspace (by simp) (by simp) before rest)
          · exact .rel _ _ (.marker hblank before rest)
      · exact .rel _ _ (.run hblank hspace (by simp) (by simp) before (d :: rest))

/-- A text is squeezed by changes of its blanks, also behind another text. -/
theorem eqvGen_squeezed (before text : List Char) :
    EqvGen Respaces (before ++ text) (before ++ squeezed text) := by
  induction text generalizing before with
  | nil => exact .refl _
  | cons c rest ih =>
      have hrest := ih (before ++ [c])
      rw [List.append_assoc, List.append_assoc] at hrest
      cases hc : isBlank c with
      | true =>
          rw [squeezed_blank hc]
          exact hrest.trans _ _ _ (eqvGen_cons_spaced hc before (squeezed rest))
      | false =>
          rw [squeezed_of_not_isBlank hc]
          exact hrest

theorem eqvGen_normalize (text : List Char) : EqvGen Respaces text (normalize text) := by
  have hsqueezed : EqvGen Respaces text (squeezed text) := eqvGen_squeezed [] text
  have hspaces : ∀ c ∈ (squeezed text).takeWhile (· == ' '), isBlank c = true := by
    intro c hc
    have hspace := List.mem_takeWhile_imp hc
    rw [eq_of_beq hspace, isBlank_space]
  have hfront := Respaces.front hspaces ((squeezed text).dropWhile (· == ' '))
  rw [List.takeWhile_append_dropWhile, ← normalize_eq] at hfront
  exact hsqueezed.trans _ _ _ (.rel _ _ hfront)

/-- Two texts have one normal form exactly if changes of blanks lead from one to the other. -/
theorem normalize_eq_iff {text other : List Char} :
    normalize other = normalize text ↔ EqvGen Respaces other text := by
  constructor
  · intro h
    exact (eqvGen_normalize other).trans _ _ _ (h ▸ (eqvGen_normalize text).symm _ _)
  · intro h
    induction h with
    | rel _ _ h => exact h.normalize_eq
    | refl => rfl
    | symm _ _ _ ih => exact ih.symm
    | trans _ _ _ _ _ ih ih' => exact ih.trans ih'

theorem ofString_eq_iff {text other : String} :
    ofString other = ofString text ↔ EqvGen Respaces other.toList text.toList := by
  rw [← normalize_eq_iff, ofString, ofString, Spelling.mk.injEq, String.ofList_inj]

/-! ### Tidy texts -/

/-- No blank stands at the end of a text, before another blank or before a pointer marker, and the only blank in
it is the space. -/
structure Trimmed (text : List Char) : Prop where
  back : ∀ c ∈ text.getLast?, isBlank c = false
  inner : text.IsChain fun c d => isBlank c = true → isBlank d = false ∧ d ≠ '*'
  spaces : ∀ c ∈ text, isBlank c = true → c = ' '

/-- A trimmed text that does not start with a blank. -/
structure Tidy (text : List Char) : Prop extends Trimmed text where
  front : ∀ c ∈ text.head?, isBlank c = false

namespace Trimmed

variable {c : Char} {text rest : List Char}

theorem nil : Trimmed [] := ⟨nofun, .nil, nofun⟩

theorem of_append {front : List Char} (h : Trimmed (front ++ rest)) : Trimmed rest where
  back c hc := by
    refine h.back c ?_
    rw [List.getLast?_append, hc]
    rfl
  inner := h.inner.right_of_append
  spaces c hc := h.spaces c (List.mem_append_right _ hc)

theorem cons (hc : isBlank c = false) (h : Trimmed rest) : Trimmed (c :: rest) where
  back d hd := by
    cases hlast : rest.getLast? with
    | none =>
        rw [List.getLast?_cons, hlast] at hd
        cases hd
        exact hc
    | some e =>
        rw [List.getLast?_cons, hlast] at hd
        cases hd
        exact h.back e hlast
  inner := by
    refine List.isChain_cons.mpr ⟨fun d _ hblank => ?_, h.inner⟩
    rw [hc] at hblank
    cases hblank
  spaces := by
    refine List.forall_mem_cons.mpr ⟨fun hblank => ?_, h.spaces⟩
    rw [hc] at hblank
    cases hblank

theorem space (hc : isBlank c = false) (hstar : c ≠ '*') (h : Trimmed (c :: rest)) :
    Trimmed (' ' :: c :: rest) where
  back := h.back
  inner := List.isChain_cons_cons.mpr ⟨fun _ => ⟨hc, hstar⟩, h.inner⟩
  spaces := List.forall_mem_cons.mpr ⟨fun _ => rfl, h.spaces⟩

theorem spaced (h : Trimmed text) : Trimmed (spaced text) := by
  cases text with
  | nil => exact nil
  | cons c rest =>
      rw [Spelling.spaced]
      split
      · exact h
      · next hc =>
          rw [not_or] at hc
          refine h.space (Bool.eq_false_iff.mpr fun hblank => ?_) hc.2
          exact hc.1 (h.spaces c List.mem_cons_self hblank)

theorem squeezed (text : List Char) : Trimmed (squeezed text) := by
  induction text with
  | nil => exact nil
  | cons c rest ih =>
      cases hc : isBlank c with
      | true =>
          rw [squeezed_blank hc]
          exact ih.spaced
      | false =>
          rw [squeezed_of_not_isBlank hc]
          exact ih.cons hc

/-- A trimmed text is squeezed already. -/
theorem squeezed_eq (h : Trimmed text) : Spelling.squeezed text = text := by
  induction text with
  | nil => rfl
  | cons c rest ih =>
      have hrest := ih (of_append (show Trimmed ([c] ++ rest) from h))
      cases hc : isBlank c with
      | false => rw [squeezed_of_not_isBlank hc, hrest]
      | true =>
          rw [squeezed_blank hc, hrest]
          obtain rfl := h.spaces c List.mem_cons_self hc
          cases rest with
          | nil =>
              have hlast := h.back ' ' rfl
              rw [isBlank_space] at hlast
              cases hlast
          | cons d rest =>
              obtain ⟨hd, hstar⟩ := (List.isChain_cons_cons.mp h.inner).1 hc
              exact spaced_of_not_isBlank hd hstar rest

end Trimmed

theorem tidy_normalize (text : List Char) : Tidy (normalize text) := by
  have htrimmed : Trimmed ((squeezed text).takeWhile (· == ' ') ++ (squeezed text).dropWhile (· == ' ')) := by
    rw [List.takeWhile_append_dropWhile]
    exact Trimmed.squeezed text
  rw [normalize_eq]
  refine ⟨htrimmed.of_append, fun c hc => Bool.eq_false_iff.mpr fun hblank => ?_⟩
  have hspace := htrimmed.of_append.spaces c (List.mem_of_mem_head? hc) hblank
  have hdropped := List.head?_dropWhile_not (· == ' ') (squeezed text)
  rw [hc, hspace] at hdropped
  cases hdropped

/-- The tidy texts are those in normal form. -/
theorem Tidy.normalize_eq {text : List Char} (h : Tidy text) : normalize text = text := by
  rw [Spelling.normalize_eq, h.squeezed_eq]
  cases text with
  | nil => rfl
  | cons c rest =>
      refine List.dropWhile_cons_of_neg fun hc => ?_
      have hfront := h.front c rfl
      rw [eq_of_beq hc, isBlank_space] at hfront
      cases hfront

/-! ### Pointer markers behind a text -/

theorem normalize_append_star (text rest : List Char) :
    normalize (text ++ '*' :: rest) = normalize text ++ '*' :: squeezed rest := by
  rw [normalize_eq, normalize_eq, squeezed_append_star, List.dropWhile_append]
  split
  · next hempty => rw [List.isEmpty_iff.mp hempty]; rfl
  · rfl

theorem squeezed_marks {marks : List Char} (hmarks : ∀ c ∈ marks, isBlank c = true ∨ c = '*') :
    squeezed marks = List.replicate (marks.count '*') '*' := by
  induction marks with
  | nil => rfl
  | cons c marks ih =>
      obtain ⟨hc, hrest⟩ := List.forall_mem_cons.mp hmarks
      rcases hc with hc | rfl
      · have hne : c ≠ '*' := by
          rintro rfl
          rw [isBlank_star] at hc
          cases hc
        rw [squeezed_blank hc, ih hrest, List.count_cons_of_ne hne]
        cases marks.count '*' with
        | zero => rfl
        | succ n => exact spaced_star _
      · rw [squeezed_star, ih hrest, List.count_cons_self, List.replicate_succ]

/-- Blanks around pointer markers behind a text vanish. -/
theorem normalize_append_marks (text : List Char) {marks : List Char}
    (hmarks : ∀ c ∈ marks, isBlank c = true ∨ c = '*') :
    normalize (text ++ marks) = normalize text ++ List.replicate (marks.count '*') '*' := by
  have hstars : ∀ n, squeezed (List.replicate n '*') = List.replicate n '*' := by
    intro n
    rw [squeezed_marks fun c hc => .inr (List.eq_of_mem_replicate hc), List.count_replicate_self]
  have hsqueezed : squeezed marks = squeezed (List.replicate (marks.count '*') '*') := by
    rw [hstars, squeezed_marks hmarks]
  rw [normalize_eq, squeezed_append hsqueezed, ← normalize_eq]
  cases marks.count '*' with
  | zero => rw [List.replicate_zero, List.append_nil, List.append_nil]
  | succ n => rw [List.replicate_succ, normalize_append_star, hstars]

/-- Pointer markers stand behind the text of a spelling as they are. -/
theorem IsNormal.text_addPointers {s : Spelling} (h : s.IsNormal) (depth : Nat) :
    (s.addPointers depth).text = s.text ++ String.ofList (List.replicate depth '*') := by
  have hmarks : ∀ c ∈ List.replicate depth '*', isBlank c = true ∨ c = '*' :=
    fun c hc => .inr (List.eq_of_mem_replicate hc)
  have hnormalize := normalize_append_marks s.text.toList hmarks
  rw [List.count_replicate_self, h] at hnormalize
  rw [addPointers, ofString, String.toList_append, String.toList_ofList, hnormalize, String.ofList_append,
    String.ofList_toList]

/-- Blanks and pointer markers behind a text put the markers behind its spelling. -/
theorem ofString_append_marks (text : String) {marks : String}
    (hmarks : ∀ c ∈ marks.toList, isBlank c = true ∨ c = '*') :
    ofString (text ++ marks) = (ofString text).addPointers (marks.toList.count '*') := by
  have hspelled := (isNormal_ofString text).text_addPointers (marks.toList.count '*')
  rw [ofString, String.toList_append, normalize_append_marks _ hmarks, String.ofList_append]
  exact congrArg Spelling.mk hspelled.symm

/-! ### Spellings of texts -/

theorem isPointer_ofString (text : String) : (ofString text).isPointer = decide ('*' ∈ text.toList) := by
  rw [isPointer, pointerDepth_ofString]
  exact decide_eq_decide.mpr List.count_pos_iff

/-- A spelling that is the same however the blanks of a text are changed, with its base, its depth and what it is
classified by. -/
structure Canonical (text : String) (s : Spelling) : Prop where
  again : ofString s.text = s
  tidy : Tidy s.text.toList
  kept : Tidy text.toList → s.text = text
  respaced : ∀ other, ofString other = s ↔ EqvGen Respaces other.toList text.toList
  /-- The base has the words of the text, between which stand blanks and pointer markers. -/
  base_words : words (fun c => isBlank c || c == '*') s.base.toList =
    words (fun c => isBlank c || c == '*') text.toList
  base_tidy : Tidy s.base.toList
  base_unmarked : '*' ∉ s.base.toList
  base_again : (ofString s.base).text = s.base
  base_base : (ofString s.base).base = s.base
  /-- Pointer markers behind the spelling are counted, and the base is kept. -/
  text_addPointers : ∀ depth, (s.addPointers depth).text = s.text ++ String.ofList (List.replicate depth '*')
  base_addPointers : ∀ depth, (s.addPointers depth).base = s.base
  pointerDepth_addPointers : ∀ depth, (s.addPointers depth).pointerDepth = s.pointerDepth + depth
  /-- Texts with one base, both or neither of which have a pointer marker, are classified alike. -/
  classified : ∀ other, (ofString other).base = s.base → ('*' ∈ other.toList ↔ '*' ∈ text.toList) →
    classify (ofString other) = classify s

/-- Normalising is canonical. Of the texts that differ by changes of blanks only, those at the ends, before pointer
markers and in the runs between, the spelling of each is the one that is tidy. The base of a spelling is tidy as
well and has no pointer markers; it is its own spelling and its own base. Pointer markers behind a spelling add to
its depth and keep its base, and the base and whether there is a pointer marker decide how a text is classified. -/
theorem canonical_ofString (text : String) : Canonical text (ofString text) := by
  have hnormal := isNormal_ofString text
  have hbase : ofString (ofString text).base = ⟨(ofString text).base⟩ := by
    rw [ofString, normalize_base, String.ofList_toList]
  have htidy : Tidy (ofString text).base.toList := by
    rw [← normalize_base]
    exact tidy_normalize _
  constructor
  case again => exact hnormal.ofString_text
  case tidy =>
    rw [ofString, String.toList_ofList]
    exact tidy_normalize _
  case kept =>
    intro h
    rw [ofString, h.normalize_eq, String.ofList_toList]
  case respaced => exact fun other => ofString_eq_iff
  case base_words =>
    rw [base_ofString]
    exact words_base ⟨text⟩
  case base_tidy => exact htidy
  case base_unmarked => exact star_not_mem_base _
  case base_again => rw [hbase]
  case base_base =>
    rw [hbase]
    exact IsNormal.base_eq_text (normalize_base _) (List.count_eq_zero.mpr (star_not_mem_base _))
  case text_addPointers => exact hnormal.text_addPointers
  case base_addPointers => exact (ofString text).base_addPointers
  case pointerDepth_addPointers => exact (ofString text).pointerDepth_addPointers
  case classified =>
    intro other hsame hmarked
    rw [classify, classify, hsame, isPointer_ofString, isPointer_ofString, decide_eq_decide.mpr hmarked]

example : ofString "  gchar  ** " = ⟨"gchar**"⟩ := by
  decide +kernel

end Interop.Spelling
