import Parlance.Proofs.Expr.Literals

/-!
# Where tokens end

Outside quotes, a token goes on over letters, digits and a few signs only, and a quote that is closed
stays closed. So in front of any other character a text is cut as it is by itself, whatever stands
behind that character.
-/

namespace Parlance

namespace Lexeme

/-- Whether a token may go on over a character, outside quotes. -/
def continuesToken (c : Char) : Bool :=
  Text.continuesWord c || isDigitOrGap c || ['.', '+', '-', '*', '/', '='].contains c

/-- What it takes for a character to end every token in front of it. -/
structure EndsToken (b : Char) : Prop where
  word : Text.continuesWord b = false
  digitOrGap : isDigitOrGap b = false
  sign : b ∉ ['.', '+', '-', '*', '/', '=']

theorem endsToken_of_continuesToken {b : Char} (h : continuesToken b = false) : EndsToken b := by
  simp only [continuesToken, Bool.or_eq_false_iff] at h
  obtain ⟨⟨hword, hdigit⟩, hsign⟩ := h
  exact ⟨hword, hdigit, by simpa using hsign⟩

namespace EndsToken

variable {b : Char}

theorem start (h : EndsToken b) : Text.startsWord b = false := by
  have hword := h.word
  simp only [Text.continuesWord, Text.startsWord, Bool.or_eq_false_iff] at hword ⊢
  exact ⟨hword.1.1, hword.2⟩

theorem digit (h : EndsToken b) : b.isDigit = false := by
  have hdigit := h.digitOrGap
  simp only [isDigitOrGap, Bool.or_eq_false_iff] at hdigit
  exact hdigit.1

/-- The mark of an exponent is a letter. -/
theorem mark (h : EndsToken b) : (b == 'e' || b == 'E') = false := by
  by_contra hmark
  have hword := h.word
  rw [Bool.not_eq_false, Bool.or_eq_true, beq_iff_eq, beq_iff_eq] at hmark
  rcases hmark with rfl | rfl
  · exact absurd hword (by decide)
  · exact absurd hword (by decide)

end EndsToken

variable {b : Char}

theorem span_append_of_not {p : Char → Bool} (hb : p b = false) (text more : List Char) :
    (text ++ b :: more).span p = ((text.span p).1, (text.span p).2 ++ b :: more) := by
  simp only [List.span_eq_takeWhile_dropWhile]
  induction text with
  | nil => simp [hb]
  | cons c text ih =>
      obtain ⟨htake, hdrop⟩ := Prod.mk.inj ih
      by_cases hc : p c = true
      · simp only [List.cons_append, List.takeWhile_cons, List.dropWhile_cons, hc, if_true]
        rw [htake, hdrop]
      · simp [hc]

theorem closeString_append {quote : Char} {text content spelling tail : List Char}
    (h : closeString quote text = some (content, spelling, tail)) (more : List Char) :
    closeString quote (text ++ more) = some (content, spelling, tail ++ more) := by
  -- A backslash with nothing behind it and one with something behind it have their own cases.
  have plain {c : Char} {rest : List Char} (hlast : c = '\\' → rest = [] → False)
      (hescape : ∀ d more, c = '\\' → rest = d :: more → False) : c ≠ '\\' := by
    rintro rfl
    cases rest with
    | nil => exact hlast rfl rfl
    | cons d more => exact hescape d more rfl rfl
  fun_induction closeString quote text generalizing content spelling tail with
  | case1 => cases h
  | case2 => cases h
  | case3 c rest ih =>
      obtain ⟨⟨content', spelling', tail'⟩, hrest, heq⟩ := Option.map_eq_some_iff.mp h
      cases heq
      rw [List.cons_append, List.cons_append, closeString, ih hrest]
      rfl
  | case4 c rest hlast hescape hquote =>
      cases h
      have hslash := plain hlast hescape
      rw [List.cons_append, closeString, if_pos hquote]
      · exact fun h => absurd h hslash
      · exact fun _ _ h => absurd h hslash
  | case5 c rest hlast hescape hquote ih =>
      obtain ⟨⟨content', spelling', tail'⟩, hrest, heq⟩ := Option.map_eq_some_iff.mp h
      cases heq
      rw [List.cons_append, closeString_cons (plain hlast hescape) (by simpa using hquote), ih hrest]
      rfl

theorem cutPoint_append_ended (hb : EndsToken b) (text more : List Char) :
    cutPoint (text ++ b :: more) = ((cutPoint text).1, (cutPoint text).2 ++ b :: more) := by
  cases text with
  | nil =>
      rw [List.nil_append, cutPoint]
      · rfl
      · rintro _ ⟨⟩
        exact hb.sign (by simp)
  | cons c text =>
      by_cases hc : c = '.'
      · subst hc
        simp only [List.cons_append, cutPoint, span_append_of_not hb.digitOrGap]
      · rw [List.cons_append, cutPoint, cutPoint]
        · rfl
        · rintro _ ⟨⟩
          exact hc rfl
        · rintro _ ⟨⟩
          exact hc rfl

theorem cutExponentSign_append_ended (hb : EndsToken b) (text more : List Char) :
    cutExponentSign (text ++ b :: more) =
      ((cutExponentSign text).1, (cutExponentSign text).2 ++ b :: more) := by
  cases text with
  | nil =>
      rw [List.nil_append, cutExponentSign]
      · rfl
      all_goals
        rintro _ ⟨⟩
        exact hb.sign (by simp)
  | cons c text =>
      rw [List.cons_append]
      unfold cutExponentSign
      split
      · simp_all
      · simp_all
      · simp_all

theorem cutExponent_append_ended (hb : EndsToken b) (text more : List Char) :
    cutExponent (text ++ b :: more) = ((cutExponent text).1, (cutExponent text).2 ++ b :: more) := by
  cases text with
  | nil => simp [cutExponent, hb.mark]
  | cons c text =>
      rw [List.cons_append, cutExponent, cutExponent]
      by_cases hmark : (c == 'e' || c == 'E') = true
      · rw [if_pos hmark, if_pos hmark, cutExponentSign_append_ended hb]
        simp only [span_append_of_not hb.digit]
        split <;> rfl
      · rw [if_neg hmark, if_neg hmark]
        rfl

theorem cutNumber_append_ended (hb : EndsToken b) {source : List Char} {cut : Cut}
    (h : cutNumber source = .ok cut) (more : List Char) :
    cutNumber (source ++ b :: more) = .ok { cut with rest := cut.rest ++ b :: more } := by
  simp only [cutNumber, span_append_of_not hb.digitOrGap, cutPoint_append_ended hb,
    cutExponent_append_ended hb] at h ⊢
  split at h
  · next hnil =>
    cases h
    rw [hnil, List.nil_append]
    simp [hb.start]
  · next c rest hrest =>
    rw [hrest, List.cons_append]
    dsimp only
    split at h <;> cases h
    next hword => rw [if_neg hword, hrest]; rfl

theorem cutWord_append_ended (hb : EndsToken b) (source more : List Char) :
    cutWord (source ++ b :: more) =
      { cutWord source with rest := (cutWord source).rest ++ b :: more } := by
  simp only [cutWord, span_append_of_not hb.word]
  split <;> rfl

theorem cutSign_append_ended (hb : EndsToken b) {source : List Char} {cut : Cut}
    (h : cutSign? source = some cut) (more : List Char) :
    cutSign? (source ++ b :: more) = some { cut with rest := cut.rest ++ b :: more } := by
  -- A sign of one character does not become one of two.
  have second {c : Char} (hc : c ∈ ['.', '+', '-', '*', '/', '=']) {rest : List Char}
      (hrest : ∀ more, rest = c :: more → False) :
      ∀ more', rest ++ b :: more = c :: more' → False := by
    intro more' heq
    cases rest with
    | nil => exact hb.sign ((List.cons.inj heq).1 ▸ hc)
    | cons d rest =>
        obtain ⟨rfl, -⟩ := List.cons.inj heq
        exact hrest rest rfl
  unfold cutSign? at h
  split at h <;> cases h
  all_goals first
    | rfl
    | next hother =>
      rw [List.cons_append, cutSign?]
      exact second (by simp) hother

theorem startsNumber_append_ended (hb : EndsToken b) (c : Char) (rest more : List Char) :
    startsNumber (c :: rest ++ b :: more) = startsNumber (c :: rest) := by
  by_cases hc : c = '.'
  · subst hc
    cases rest with
    | nil => exact hb.digit
    | cons d rest => rfl
  · rw [List.cons_append, startsNumber, startsNumber]
    · exact fun _ _ h => absurd h hc
    · exact fun _ _ h => absurd h hc

theorem cutToken_append_ended (hb : EndsToken b) {c : Char} {rest : List Char} {cut : Cut}
    (h : cutToken c rest = .ok cut) (more : List Char) :
    cutToken c (rest ++ b :: more) = .ok { cut with rest := cut.rest ++ b :: more } := by
  unfold cutToken at h ⊢
  rw [← List.cons_append, startsNumber_append_ended hb]
  split at h
  · next hquote =>
    rw [if_pos hquote]
    split at h <;> cases h
    next hclose => rw [closeString_append hclose]
  · next hquote =>
    rw [if_neg hquote]
    split at h
    · next hnumber =>
      rw [if_pos hnumber]
      exact cutNumber_append_ended hb h more
    · next hnumber =>
      rw [if_neg hnumber]
      split at h
      · next hword =>
        cases h
        rw [if_pos hword, cutWord_append_ended hb]
      · next hword =>
        rw [if_neg hword]
        split at h <;> cases h
        next hsign => rw [cutSign_append_ended hb hsign]

theorem Cuts.append_ended (hb : EndsToken b) {source tail : List Char} {ls : List Lexeme}
    (h : Cuts source ls tail) (more : List Char) :
    Cuts (source ++ b :: more) ls (tail ++ b :: more) := by
  induction h with
  | nil => exact .nil
  | cons blanks visible first _ ih =>
      rw [List.append_assoc, List.cons_append]
      have hcuts := Cuts.cons blanks visible (cutToken_append_ended hb first more) ih
      exact hcuts

/-- A text in front of a character that ends tokens is cut as it is by itself. -/
theorem scan_append_ended (hb : EndsToken b) {source : List Char} {ls : List Lexeme}
    (h : scan source = .ok ls) (more : List Char) :
    ∃ tail, (∀ c ∈ tail, Text.isBlank c = true) ∧ source = ls.flatMap chars ++ tail ∧
      scan (source ++ b :: more) = (scan (tail ++ b :: more)).map (ls ++ ·) := by
  obtain ⟨tail, htail, hcuts⟩ := exists_cuts h
  exact ⟨tail, htail, hcuts.eq_append, (hcuts.append_ended hb more).scan_eq⟩

end Lexeme

end Parlance
