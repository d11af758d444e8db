import Parlance.Proofs.Expr.Spelling

/-!
# Cutting a text token by token

The lexemes of a text are the one that is cut from its front and those of the rest. A run of
characters is cut whole where the character behind it cannot belong to it, and a word where nothing
else begins with its first character.
-/

namespace Parlance

namespace Lexeme

theorem span_of_stops {p : Char → Bool} {run rest : List Char} (hrun : ∀ c ∈ run, p c = true)
    (hstops : ∀ c ∈ rest.head?, p c = false) : (run ++ rest).span p = (run, rest) := by
  have htake : rest.takeWhile p = [] := by
    cases rest with
    | nil => rfl
    | cons c rest => simp [hstops c rfl]
  have hdrop : rest.dropWhile p = rest := by
    cases rest with
    | nil => rfl
    | cons c rest => simp [hstops c rfl]
  rw [List.span_eq_takeWhile_dropWhile, List.takeWhile_append_of_pos hrun, htake, List.append_nil,
    List.dropWhile_append_of_pos hrun, hdrop]

theorem scan_nil : scan [] = .ok [] :=
  rfl

/-- Where a token is cut, the lexemes are its own and those of the rest. -/
theorem scan_append_cons {blank rest : List Char} {c : Char} {cut : Cut}
    (hblank : ∀ b ∈ blank, Text.isBlank b = true) (hc : Text.isBlank c = false)
    (hcut : cutToken c rest = .ok cut) :
    scan (blank ++ c :: rest) = (scan cut.rest).map (⟨blank, cut.text, cut.token⟩ :: ·) := by
  have hspan : (blank ++ c :: rest).span Text.isBlank = (blank, c :: rest) :=
    span_of_stops hblank fun d hd => Option.some.inj hd ▸ hc
  have hlt := (cutToken_takes hcut).length_lt
  have hlength : (blank ++ c :: rest).length = (blank.length + rest.length) + 1 := by
    simp only [List.length_append, List.length_cons]
    omega
  have hfuel : cut.rest.length ≤ blank.length + rest.length := by
    rw [List.length_cons] at hlt
    omega
  unfold scan
  rw [hlength, scanFuel, hspan, scanFuel_eq (Nat.le_refl cut.rest.length) hfuel]
  dsimp only
  rw [hcut]
  dsimp only
  cases scanFuel (blank.length + rest.length) cut.rest <;> rfl

theorem scan_cons {rest : List Char} {c : Char} {cut : Cut} (hc : Text.isBlank c = false)
    (hcut : cutToken c rest = .ok cut) :
    scan (c :: rest) = (scan cut.rest).map (⟨[], cut.text, cut.token⟩ :: ·) :=
  @scan_append_cons [] rest c cut nofun hc hcut

theorem Cuts.scan_eq {source tail : List Char} {ls : List Lexeme} (h : Cuts source ls tail) :
    scan source = (scan tail).map (ls ++ ·) := by
  induction h with
  | nil => cases scan _ <;> rfl
  | cons blanks visible first _ ih =>
      rw [scan_append_cons blanks visible first, ih]
      cases scan _ <;> rfl

theorem scan_blanks {tail : List Char} (htail : ∀ c ∈ tail, Text.isBlank c = true) :
    scan tail = .ok [] := by
  have hspan := @span_of_stops Text.isBlank tail [] htail nofun
  rw [List.append_nil] at hspan
  cases tail with
  | nil => rfl
  | cons c tail => rw [scan, List.length_cons, scanFuel, hspan]

/-! ## Words -/

/-- A word begins with a character that nothing else begins with. -/
structure WordStart (c : Char) : Prop where
  word : Text.startsWord c = true
  not_quote : (c == '"' || c == '\'') = false
  not_digit : c.isDigit = false

theorem WordStart.not_startsNumber {c : Char} (h : WordStart c) (rest : List Char) :
    startsNumber (c :: rest) = false := by
  have hpoint : c ≠ '.' := by
    rintro rfl
    exact absurd h.word (by decide)
  unfold startsNumber
  split
  · next heq => exact absurd (List.cons.inj heq).1 hpoint
  · next heq => exact (List.cons.inj heq).1 ▸ h.not_digit
  · rfl

theorem WordStart.cutToken_eq {c : Char} (h : WordStart c) (rest : List Char) :
    cutToken c rest = .ok (cutWord (c :: rest)) := by
  unfold cutToken
  rw [if_neg (by simp [h.not_quote]), if_neg (by simp [h.not_startsNumber]), if_pos h.word]

/-- What starts a word is no digit where no number starts. -/
theorem wordStart_of_startsWord {c : Char} {rest : List Char}
    (hquote : ¬ (c == '"' || c == '\'') = true) (hnumber : ¬ startsNumber (c :: rest) = true)
    (hword : Text.startsWord c = true) : WordStart c := by
  refine ⟨hword, by simpa using hquote, ?_⟩
  by_contra hdigit
  exact hnumber (startsNumber_of_isDigit (by simpa using hdigit) rest)

theorem cutWord_of_stops {word rest : List Char} (hword : ∀ c ∈ word, Text.continuesWord c = true)
    (hstops : ∀ c ∈ rest.head?, Text.continuesWord c = false) :
    cutWord (word ++ rest) =
      match Keyword.ofSpelling? (String.ofList word) with
      | some k => ⟨.keyword k, word, rest⟩
      | none => ⟨.name (String.ofList word), word, rest⟩ := by
  have hspan := span_of_stops hword hstops
  unfold cutWord
  cases hkeyword : Keyword.ofSpelling? (String.ofList word) <;> simp only [hspan, hkeyword]

end Lexeme

end Parlance
