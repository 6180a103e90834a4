/-! Patterns of names: `?` stands for one character, `*` for any text, `[a-c]` for one character of
a set and `[!a-c]` for one outside of it. The dot at the start of a name is matched like any other
character. Main statement: the rows that the matching fills in, one for every number of tokens, tell
exactly which texts the tokens stand for. -/

namespace Interop

/-- One element of the pattern of a name. -/
inductive NameToken
  | char (c : Char)
  | anyChar
  | anyText
  /-- One character of a set given by ranges, or one outside of it. -/
  | oneOf (negated : Bool) (ranges : List (Char × Char))
deriving DecidableEq, Repr, Inhabited

namespace NameToken

/-- Whether a token stands for a character. -/
def accepts : NameToken → Char → Bool
  | char c, d => c == d
  | anyChar, _ => true
  | anyText, _ => true
  | oneOf negated ranges, c => ranges.any (fun (first, last) => first ≤ c && c ≤ last) != negated

/-- That tokens stand for a text: `*` for any text in front of what the others stand for, every
other token for one character that it accepts. -/
inductive Covers : List NameToken → List Char → Prop
  | nil : Covers [] []
  | skip {tokens : List NameToken} (front : List Char) {text : List Char} :
      Covers tokens text → Covers (anyText :: tokens) (front ++ text)
  | one {token : NameToken} {tokens : List NameToken} {c : Char} {text : List Char} :
      token ≠ anyText → token.accepts c = true → Covers tokens text →
      Covers (token :: tokens) (c :: text)

/-- Whether something holds of the same or of a later ending. -/
def orLater : List Bool → List Bool
  | [] => []
  | b :: rest =>
    let later := orLater rest
    (b || later.headD false) :: later

/-- Whether tokens stand for a text and for each of its endings, the longest first. -/
def matchEndings : List NameToken → List Char → List Bool
  | [], text => text.map (fun _ => false) ++ [true]
  | anyText :: tokens, text => orLater (matchEndings tokens text)
  | token :: tokens, text =>
    List.zipWith (fun c b => token.accepts c && b) text (matchEndings tokens text).tail ++ [false]

/-- Whether tokens stand for a text. The work is the product of the two lengths. -/
def matchAll (tokens : List NameToken) (text : List Char) : Bool :=
  (matchEndings tokens text).headD false

theorem orLater_ne_nil {row : List Bool} (h : row ≠ []) : orLater row ≠ [] := by
  cases row with
  | nil => exact absurd rfl h
  | cons b rest => exact List.cons_ne_nil _ _

theorem matchEndings_of_ne {token : NameToken} (h : token ≠ anyText) (tokens : List NameToken)
    (text : List Char) :
    matchEndings (token :: tokens) text =
      List.zipWith (fun c b => token.accepts c && b) text (matchEndings tokens text).tail
        ++ [false] := by
  cases token with
  | anyText => exact absurd rfl h
  | _ => rfl

theorem matchEndings_ne_nil (tokens : List NameToken) (text : List Char) :
    matchEndings tokens text ≠ [] := by
  induction tokens with
  | nil => simp [matchEndings]
  | cons token tokens ih =>
      by_cases h : token = anyText
      · subst h
        exact orLater_ne_nil ih
      · rw [matchEndings_of_ne h]
        exact List.append_ne_nil_of_right_ne_nil _ (List.cons_ne_nil _ _)

theorem matchEndings_eq_cons (tokens : List NameToken) (text : List Char) :
    matchEndings tokens text = matchAll tokens text :: (matchEndings tokens text).tail := by
  unfold matchAll
  cases h : matchEndings tokens text with
  | nil => exact absurd h (matchEndings_ne_nil tokens text)
  | cons b rest => rfl

/-- The row of a text is the row of the text without its first character, with one entry more. -/
theorem tail_matchEndings (tokens : List NameToken) (c : Char) (text : List Char) :
    (matchEndings tokens (c :: text)).tail = matchEndings tokens text := by
  induction tokens with
  | nil => rfl
  | cons token tokens ih =>
      by_cases h : token = anyText
      · subst h
        simp only [matchEndings]
        rw [matchEndings_eq_cons tokens (c :: text), ih]
        rfl
      · simp only [matchEndings_of_ne h, ih]
        rw [matchEndings_eq_cons tokens text]
        rfl

theorem matchAll_nil (text : List Char) : matchAll [] text = text.isEmpty := by
  cases text <;> rfl

theorem matchAll_anyText_nil (tokens : List NameToken) :
    matchAll (anyText :: tokens) [] = matchAll tokens [] := by
  have h : (matchEndings tokens []).tail = [] := by
    induction tokens with
    | nil => rfl
    | cons token tokens ih =>
        by_cases ht : token = anyText
        · subst ht
          rw [matchEndings, matchEndings_eq_cons, ih]
          rfl
        · simp [matchEndings_of_ne ht]
  rw [matchAll, matchEndings, matchEndings_eq_cons, h]
  simp [orLater]

theorem matchAll_anyText_cons (tokens : List NameToken) (c : Char) (text : List Char) :
    matchAll (anyText :: tokens) (c :: text) =
      (matchAll tokens (c :: text) || matchAll (anyText :: tokens) text) := by
  rw [matchAll, matchEndings, matchEndings_eq_cons, tail_matchEndings]
  rfl

theorem matchAll_one_nil {token : NameToken} (h : token ≠ anyText) (tokens : List NameToken) :
    matchAll (token :: tokens) [] = false := by
  rw [matchAll, matchEndings_of_ne h]
  rfl

theorem matchAll_one_cons {token : NameToken} (h : token ≠ anyText) (tokens : List NameToken)
    (c : Char) (text : List Char) :
    matchAll (token :: tokens) (c :: text) = (token.accepts c && matchAll tokens text) := by
  rw [matchAll, matchEndings_of_ne h, tail_matchEndings, matchEndings_eq_cons]
  rfl

theorem covers_anyText_cons {tokens : List NameToken} {text : List Char} (c : Char)
    (h : Covers (anyText :: tokens) text) : Covers (anyText :: tokens) (c :: text) := by
  cases h with
  | skip front h => exact .skip (c :: front) h
  | one hne => exact absurd rfl hne

theorem covers_of_ne {token : NameToken} {tokens : List NameToken} {text : List Char}
    (ht : token ≠ anyText) (h : Covers (token :: tokens) text) :
    ∃ c rest, text = c :: rest ∧ token.accepts c = true ∧ Covers tokens rest := by
  cases h with
  | skip => exact absurd rfl ht
  | one _ ha h => exact ⟨_, _, rfl, ha, h⟩

/-- The rows tell exactly which texts the tokens stand for. -/
theorem matchAll_iff (tokens : List NameToken) (text : List Char) :
    matchAll tokens text = true ↔ Covers tokens text := by
  induction tokens generalizing text with
  | nil =>
      rw [matchAll_nil, List.isEmpty_iff]
      constructor
      · rintro rfl
        exact .nil
      · intro h
        cases h
        rfl
  | cons token tokens ih =>
      by_cases ht : token = anyText
      · subst ht
        constructor
        · intro h
          induction text with
          | nil => exact .skip [] ((ih []).mp (matchAll_anyText_nil tokens ▸ h))
          | cons c text ihText =>
              rw [matchAll_anyText_cons, Bool.or_eq_true] at h
              rcases h with h | h
              · exact .skip [] ((ih _).mp h)
              · exact covers_anyText_cons c (ihText h)
        · intro h
          cases h with
          | one hne => exact absurd rfl hne
          | @skip _ front rest h =>
              have start : matchAll (anyText :: tokens) rest = true := by
                cases rest with
                | nil => rw [matchAll_anyText_nil, ih]; exact h
                | cons c rest => rw [matchAll_anyText_cons, (ih _).mpr h, Bool.true_or]
              induction front with
              | nil => exact start
              | cons c front ihFront =>
                  rw [List.cons_append, matchAll_anyText_cons, ihFront, Bool.or_true]
      · cases text with
        | nil =>
            rw [matchAll_one_nil ht]
            constructor
            · intro h
              cases h
            · intro h
              obtain ⟨c, rest, hnil, _⟩ := covers_of_ne ht h
              cases hnil
        | cons c text =>
            rw [matchAll_one_cons ht, Bool.and_eq_true, ih]
            constructor
            · rintro ⟨ha, h⟩
              exact .one ht ha h
            · intro h
              obtain ⟨d, rest, hcons, ha, h⟩ := covers_of_ne ht h
              cases hcons
              exact ⟨ha, h⟩

/-- The text that tokens stand for, if there are no wildcards among them. -/
def literal? (tokens : List NameToken) : Option String :=
  (tokens.mapM fun
    | char c => some c
    | _ => none).map String.ofList

/-- The ranges that the inside of brackets gives. -/
def ranges : List Char → List (Char × Char)
  | first :: '-' :: last :: rest => (first, last) :: ranges rest
  | c :: rest => (c, c) :: ranges rest
  | [] => []

/-- Reads the inside of brackets, which is not empty and may start with a closing bracket. -/
def readBrackets : List Char → Option (List Char × List Char)
  | [] => none
  | first :: rest =>
    match rest.span (· != ']') with
    | (_, []) => none
    | (inside, _ :: rest) => some (first :: inside, rest)

/-- What is wrong with a pattern. -/
inductive Mistake
  | tooManyStars
  | foldersInName
  | openBracket
deriving DecidableEq, Repr, Inhabited

def Mistake.message : Mistake → String
  | tooManyStars => "wildcards are either regular `*` or recursive `**`"
  | foldersInName => "recursive wildcards must form a single path component"
  | openBracket => "invalid range pattern"

/-- The tokens of the pattern of a name, with a bound on their number. -/
def ofChars : Nat → List Char → Except Mistake (List NameToken)
  | 0, _ => .ok []
  | _, [] => .ok []
  | _, '*' :: '*' :: '*' :: _ => .error .tooManyStars
  | _, '*' :: '*' :: _ => .error .foldersInName
  | bound + 1, '*' :: rest => return anyText :: (← ofChars bound rest)
  | bound + 1, '?' :: rest => return anyChar :: (← ofChars bound rest)
  | bound + 1, '[' :: rest =>
    let (negated, body) := match rest with
      | '!' :: body => (true, body)
      | body => (false, body)
    match readBrackets body with
    | none => .error .openBracket
    | some (inside, rest) => return oneOf negated (ranges inside) :: (← ofChars bound rest)
  | bound + 1, c :: rest => return char c :: (← ofChars bound rest)

end NameToken

end Interop
