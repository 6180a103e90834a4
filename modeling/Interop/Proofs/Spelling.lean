import Interop.Classification
import Mathlib.Data.List.Basic

/-! Spellings in normal form. Normalising a second time changes nothing, keeps the pointer markers and
keeps the base, so that pointer markers behind a spelling are counted by its depth and ignored by its
base. Main statements: `ofString_text`, `base_addPointers`, `pointerDepth_addPointers`. -/

namespace Interop

namespace Text

variable {p q : Char → Bool}

theorem firstWord_append {w : List Char} (hw : ∀ c ∈ w, p c = false) (l : List Char) :
    firstWord p (w ++ l) = (w ++ (firstWord p l).1, (firstWord p l).2) := by
  induction w with
  | nil => rfl
  | cons c w ih =>
      rw [List.cons_append, firstWord, ih fun d hd => hw d (List.mem_cons_of_mem c hd),
        hw c (List.mem_cons_self ..)]
      rfl

theorem firstWord_separator {c : Char} (hc : p c = true) (l : List Char) :
    firstWord p (c :: l) = ([], words p l) := by
  simp only [firstWord, hc, if_true, words]

theorem words_separator {c : Char} (hc : p c = true) (l : List Char) :
    words p (c :: l) = words p l := by
  rw [words, firstWord_separator hc]
  rfl

/-- A text that starts with a word. -/
theorem words_append_separator {w : List Char} (hw : ∀ c ∈ w, p c = false) {c : Char}
    (hc : p c = true) (l : List Char) : words p (w ++ c :: l) = consWord w (words p l) := by
  rw [words, firstWord_append hw, firstWord_separator hc, List.append_nil]

theorem words_eq_nil_of_forall {l : List Char} (hl : ∀ c ∈ l, p c = true) : words p l = [] := by
  induction l with
  | nil => rfl
  | cons c l ih =>
      rw [words_separator (hl c (List.mem_cons_self ..)), ih fun d hd => hl d (List.mem_cons_of_mem c hd)]

theorem flatten_consWord (w : List Char) (others : List (List Char)) :
    (consWord w others).flatten = w ++ others.flatten := by
  cases w <;> rfl

/-- The words before a separator are those of the text before it. -/
theorem words_append_cons (l : List Char) {c : Char} (hc : p c = true) (rest : List Char) :
    words p (l ++ c :: rest) = words p l ++ words p rest := by
  -- The induction moves the characters of the word that is being read into `w`.
  have hread : ∀ w : List Char, (∀ d ∈ w, p d = false) →
      words p (w ++ (l ++ c :: rest)) = words p (w ++ l) ++ words p rest := by
    induction l with
    | nil =>
        intro w hw
        rw [List.nil_append, words_append_separator hw hc, List.append_nil, words_of_forall hw]
        cases w <;> rfl
    | cons d l ih =>
        intro w hw
        cases hd : p d with
        | true =>
            have htail := ih [] (by simp)
            rw [List.nil_append, List.nil_append] at htail
            rw [List.cons_append, words_append_separator hw hd, words_append_separator hw hd, htail]
            cases w <;> rfl
        | false =>
            have hword : ∀ e ∈ w ++ [d], p e = false := by
              intro e he
              rcases List.mem_append.mp he with he | he
              · exact hw e he
              · rw [List.mem_singleton.mp he, hd]
            have htail := ih (w ++ [d]) hword
            rw [List.append_assoc, List.append_assoc] at htail
            exact htail
  exact hread [] (by simp)

theorem words_append_of_forall (l : List Char) {rest : List Char} (hrest : ∀ c ∈ rest, p c = true) :
    words p (l ++ rest) = words p l := by
  cases rest with
  | nil => rw [List.append_nil]
  | cons c rest =>
      rw [words_append_cons l (hrest c (List.mem_cons_self ..)),
        words_eq_nil_of_forall fun d hd => hrest d (List.mem_cons_of_mem c hd), List.append_nil]

/-- With more separators, the words are those within the words. -/
theorem flatMap_words (hpq : ∀ c, p c = true → q c = true) (l : List Char) :
    (words p l).flatMap (words q) = words q l := by
  have hread : ∀ w : List Char, (∀ d ∈ w, p d = false) →
      (words p (w ++ l)).flatMap (words q) = words q (w ++ l) := by
    induction l with
    | nil =>
        intro w hw
        rw [List.append_nil, words_of_forall hw]
        cases w with
        | nil => rfl
        | cons c w => exact List.append_nil _
    | cons d l ih =>
        intro w hw
        cases hd : p d with
        | true =>
            have htail := ih [] (by simp)
            rw [List.nil_append] at htail
            rw [words_append_separator hw hd, words_append_cons w (hpq d hd), ← htail]
            cases w <;> rfl
        | false =>
            have hword : ∀ e ∈ w ++ [d], p e = false := by
              intro e he
              rcases List.mem_append.mp he with he | he
              · exact hw e he
              · rw [List.mem_singleton.mp he, hd]
            have htail := ih (w ++ [d]) hword
            rw [List.append_assoc] at htail
            exact htail
  exact hread [] (by simp)

/-- Only the separators in a text matter for its words. -/
theorem words_congr {l : List Char} (h : ∀ c ∈ l, p c = q c) : words p l = words q l := by
  have hfirst : firstWord p l = firstWord q l := by
    induction l with
    | nil => rfl
    | cons c l ih =>
        rw [firstWord, firstWord, ih fun d hd => h d (List.mem_cons_of_mem c hd),
          h c (List.mem_cons_self ..)]
  rw [words, words, hfirst]

theorem exists_words_cons {c : Char} (hc : p c = false) (l : List Char) :
    ∃ w others, words p (c :: l) = (c :: w) :: others := by
  rw [words, firstWord, hc]
  exact ⟨_, _, rfl⟩

end Text

namespace Spelling

open Text

theorem glue_cons_cons (word next : List Char) (others : List (List Char)) :
    glue (word :: next :: others) =
      if next.head? = some '*' then word ++ glue (next :: others)
      else word ++ ' ' :: glue (next :: others) := by
  rw [glue]
  split <;> rfl

theorem glue_singleton (word : List Char) : glue [word] = word := List.append_nil word

theorem exists_glue_cons (c : Char) (word : List Char) (others : List (List Char)) :
    ∃ rest, glue ((c :: word) :: others) = c :: rest :=
  ⟨_, rfl⟩

theorem count_glue {c : Char} (hc : c ≠ ' ') (ws : List (List Char)) :
    (glue ws).count c = ws.flatten.count c := by
  induction ws with
  | nil => rfl
  | cons word others ih =>
      cases others with
      | nil => rw [glue_singleton, List.flatten_singleton]
      | cons next others =>
          rw [glue_cons_cons, List.flatten_cons, List.count_append, ← ih]
          split
          · rw [List.count_append]
          · rw [List.count_append, List.count_cons_of_ne hc.symm]

theorem count_flatten_words {p : Char → Bool} {c : Char} (hc : p c = false) (l : List Char) :
    (words p l).flatten.count c = l.count c := by
  have hfirst : ((firstWord p l).1 ++ (firstWord p l).2.flatten).count c = l.count c := by
    induction l with
    | nil => rfl
    | cons d l ih =>
        cases hd : p d with
        | true =>
            have hne : d ≠ c := by
              rintro rfl
              rw [hc] at hd
              cases hd
            simp only [firstWord_separator hd, words, List.nil_append, flatten_consWord, ih,
              List.count_cons_of_ne hne]
        | false =>
            simp only [firstWord, hd, Bool.false_eq_true, if_false]
            rw [List.cons_append, List.count_cons, List.count_cons, ih]
  rw [words, flatten_consWord, hfirst]

theorem isBlank_star : isBlank '*' = false := by decide

theorem isBlank_space : isBlank ' ' = true := by decide

theorem count_star_normalize (l : List Char) : (normalize l).count '*' = l.count '*' := by
  rw [normalize, count_glue (by decide), count_flatten_words isBlank_star]

/-- Between two words of a glued text stands a blank or a pointer marker. -/
theorem words_glue {q : Char → Bool} (hspace : q ' ' = true) (hstar : q '*' = true)
    (ws : List (List Char)) : words q (glue ws) = ws.flatMap (words q) := by
  induction ws with
  | nil => rfl
  | cons word others ih =>
      cases others with
      | nil => rw [glue_singleton, List.flatMap_singleton]
      | cons next others =>
          rw [glue_cons_cons, List.flatMap_cons, ← ih]
          split
          · next hnext =>
              -- The glued rest starts with the marker.
              obtain ⟨tail, rfl⟩ := List.head?_eq_some_iff.mp hnext
              obtain ⟨rest, hrest⟩ := exists_glue_cons '*' tail others
              rw [hrest, words_append_cons word hstar, words_separator hstar]
          · exact words_append_cons word hspace _

/-- Gluing the words of a glued text gives the text again. -/
theorem glue_words_glue {ws : List (List Char)}
    (hws : ∀ w ∈ ws, w ≠ [] ∧ ∀ c ∈ w, isBlank c = false) : glue (words isBlank (glue ws)) = glue ws := by
  -- A word that a marker follows without a blank is part of a longer word, which is read in `u`.
  have hread : ∀ u : List Char, (∀ c ∈ u, isBlank c = false) →
      glue (words isBlank (u ++ glue ws)) = u ++ glue ws := by
    induction ws with
    | nil =>
        intro u hu
        rw [glue, List.append_nil, words_of_forall hu]
        cases u with
        | nil => rfl
        | cons c u => exact glue_singleton _
    | cons word others ih =>
        intro u hu
        obtain ⟨⟨hne, hword⟩, hothers⟩ := List.forall_mem_cons.mp hws
        have hboth : ∀ c ∈ u ++ word, isBlank c = false := by
          intro c hc
          exact (List.mem_append.mp hc).elim (hu c) (hword c)
        have hjoined : u ++ word ≠ [] := fun heq => hne (List.append_eq_nil_iff.mp heq).2
        cases others with
        | nil =>
            rw [glue_singleton, words_of_forall hboth]
            cases hcase : u ++ word with
            | nil => exact absurd hcase hjoined
            | cons c rest => exact glue_singleton _
        | cons next others =>
            rw [glue_cons_cons]
            split
            · rw [← List.append_assoc]
              exact ih hothers (u ++ word) hboth
            · next hnext =>
                have htail := ih hothers [] (by simp)
                rw [List.nil_append] at htail
                obtain ⟨⟨hnextNe, hnextWord⟩, -⟩ := List.forall_mem_cons.mp hothers
                obtain ⟨c, tail, rfl⟩ := List.exists_cons_of_ne_nil hnextNe
                obtain ⟨glued, hglued⟩ := exists_glue_cons c tail others
                obtain ⟨first, rest, hfirst⟩ :=
                  exists_words_cons (hnextWord c (List.mem_cons_self ..)) glued
                rw [← List.append_assoc, words_append_separator hboth isBlank_space]
                rw [hglued, hfirst] at htail
                rw [hglued, hfirst]
                cases hcase : u ++ word with
                | nil => exact absurd hcase hjoined
                | cons d joined =>
                    have hmark : ¬(c :: first).head? = some '*' := hnext
                    rw [consWord, List.isEmpty_cons, if_neg Bool.false_ne_true, glue_cons_cons,
                      if_neg hmark, htail]
  exact hread [] (by simp)

theorem normalize_normalize (l : List Char) : normalize (normalize l) = normalize l :=
  glue_words_glue fun _ hw => not_isSeparator_of_mem_words hw

/-- A spelling as it is kept: in normal form. -/
def IsNormal (s : Spelling) : Prop := normalize s.text.toList = s.text.toList

theorem isNormal_ofString (text : String) : (ofString text).IsNormal := by
  rw [IsNormal, ofString, String.toList_ofList, normalize_normalize]

theorem IsNormal.ofString_text {s : Spelling} (h : s.IsNormal) : ofString s.text = s := by
  rw [ofString, h, String.ofList_toList]

theorem IsNormal.addPointers_zero {s : Spelling} (h : s.IsNormal) : s.addPointers 0 = s := by
  rw [addPointers, List.replicate_zero, String.ofList_nil, String.append_empty, h.ofString_text]

theorem pointerDepth_ofString (text : String) :
    (ofString text).pointerDepth = text.toList.count '*' := by
  rw [pointerDepth, ofString, String.toList_ofList, count_star_normalize]

/-- Pointer markers behind a spelling add to its depth. -/
theorem pointerDepth_addPointers (s : Spelling) (k : Nat) :
    (s.addPointers k).pointerDepth = s.pointerDepth + k := by
  rw [addPointers, pointerDepth_ofString, String.toList_append, String.toList_ofList,
    List.count_append, List.count_replicate_self, pointerDepth]

theorem isPointer_addPointers (s : Spelling) (k : Nat) :
    (s.addPointers k).isPointer = (s.isPointer || decide (0 < k)) := by
  rw [isPointer, isPointer, pointerDepth_addPointers, ← Bool.decide_or]
  exact decide_eq_decide.mpr (by omega)

theorem base_ofString (text : String) : (ofString text).base = base ⟨text⟩ := by
  have hblank : ∀ c, isBlank c = true → (isBlank c || c == '*') = true := by
    intro c hc
    rw [hc, Bool.true_or]
  rw [base, base, ofString, String.toList_ofList, normalize, words_glue (by decide) (by decide),
    flatMap_words hblank]

/-- Pointer markers behind a spelling do not change its base. -/
theorem base_addPointers (s : Spelling) (k : Nat) : (s.addPointers k).base = s.base := by
  rw [addPointers, base_ofString, base, String.toList_append, String.toList_ofList,
    words_append_of_forall, base]
  intro c hc
  rw [List.eq_of_mem_replicate hc]
  decide

/-- Without a word that starts with a marker, gluing puts one space between two words. -/
theorem glue_eq_intercalate {ws : List (List Char)} (hws : ∀ w ∈ ws, w.head? ≠ some '*') :
    glue ws = List.intercalate [' '] ws := by
  induction ws with
  | nil => rfl
  | cons word others ih =>
      cases others with
      | nil => rw [glue_singleton, List.intercalate_singleton]
      | cons next others =>
          rw [glue_cons_cons, if_neg (hws next (by simp)),
            ih fun w hw => hws w (List.mem_cons_of_mem _ hw), List.intercalate_cons_cons,
            List.append_assoc, List.singleton_append]

/-- A spelling without pointer markers is its own base. -/
theorem IsNormal.base_eq_text {s : Spelling} (h : s.IsNormal) (hdepth : s.pointerDepth = 0) :
    s.base = s.text := by
  have hnone : ∀ c ∈ s.text.toList, c ≠ '*' := by
    rintro c hc rfl
    exact List.count_eq_zero.mp hdepth hc
  have hwords : words (fun c => isBlank c || c == '*') s.text.toList = words isBlank s.text.toList :=
    words_congr fun c hc => by rw [beq_false_of_ne (hnone c hc), Bool.or_false]
  have hheads : ∀ w ∈ words isBlank s.text.toList, w.head? ≠ some '*' := by
    intro w hw hhead
    have hcount : 0 < (words isBlank s.text.toList).flatten.count '*' := by
      rw [List.count_pos_iff]
      exact List.mem_flatten.mpr ⟨w, hw, List.mem_of_head? hhead⟩
    rw [count_flatten_words isBlank_star] at hcount
    exact absurd hdepth (Nat.ne_of_gt hcount)
  rw [base, hwords, ← glue_eq_intercalate hheads]
  exact (congrArg String.ofList h).trans String.ofList_toList

/-! ### Words of a base -/

/-- The words of a spelling, between which stand blanks and pointer markers. -/
def baseWords (s : Spelling) : List (List Char) := words (fun c => isBlank c || c == '*') s.text.toList

theorem toList_base (s : Spelling) : s.base.toList = List.intercalate [' '] s.baseWords := String.toList_ofList

theorem of_mem_baseWords {s : Spelling} {w : List Char} (hw : w ∈ s.baseWords) :
    w ≠ [] ∧ ∀ c ∈ w, isBlank c = false ∧ c ≠ '*' := by
  obtain ⟨hne, hall⟩ := not_isSeparator_of_mem_words hw
  refine ⟨hne, fun c hc => ?_⟩
  obtain ⟨hblank, hstar⟩ := Bool.or_eq_false_iff.mp (hall c hc)
  exact ⟨hblank, ne_of_beq_false hstar⟩

theorem toList_base_eq_glue (s : Spelling) : s.base.toList = glue s.baseWords := by
  refine s.toList_base.trans (glue_eq_intercalate fun w hw hhead => ?_).symm
  exact ((of_mem_baseWords hw).2 '*' (List.mem_of_head? hhead)).2 rfl

/-- The base has the words of the spelling. -/
theorem words_base (s : Spelling) : words (fun c => isBlank c || c == '*') s.base.toList = s.baseWords := by
  have hself : ∀ w ∈ s.baseWords, words (fun c => isBlank c || c == '*') w = [w] := by
    intro w hw
    obtain ⟨hne, hall⟩ := of_mem_baseWords hw
    obtain ⟨c, rest, rfl⟩ := List.exists_cons_of_ne_nil hne
    refine words_of_forall fun d hd => ?_
    obtain ⟨hblank, hstar⟩ := hall d hd
    rw [hblank, beq_false_of_ne hstar, Bool.or_false]
  rw [toList_base_eq_glue, words_glue (by decide) (by decide)]
  exact (List.flatMap_congr hself).trans (List.flatMap_singleton' _)

/-- A base is a spelling in normal form. -/
theorem normalize_base (s : Spelling) : normalize s.base.toList = s.base.toList := by
  rw [toList_base_eq_glue]
  exact glue_words_glue fun w hw => ⟨(of_mem_baseWords hw).1, fun c hc => ((of_mem_baseWords hw).2 c hc).1⟩

/-- A base has no pointer markers. -/
theorem star_not_mem_base (s : Spelling) : '*' ∉ s.base.toList := by
  rw [← List.count_eq_zero, toList_base_eq_glue, count_glue (by decide), List.count_eq_zero]
  intro hstar
  obtain ⟨w, hw, hstar⟩ := List.mem_flatten.mp hstar
  exact ((of_mem_baseWords hw).2 '*' hstar).2 rfl

end Spelling

end Interop
