import Parlance.Proofs.Expr.Blanks
import Parlance.Proofs.Expr.Characters

/-!
# Tokens by themselves

What decides how a token is cut stands in its own spelling: the quote that closes a literal text, the
parts of a number, the letters of a word, the characters of a sign. What stands behind the spelling only
has to let the token end there. So every token is cut again from its spelling alone, and the tokens of
a text do not change if their spellings are put one behind another with spaces.
-/

namespace Parlance

namespace Lexeme

theorem Closes.closeString_eq {quote : Char} {content spelling : List Char}
    (h : Closes quote content spelling) (quoted : isQuote quote = true) :
    closeString quote spelling = some (content, spelling, []) := by
  induction h with
  | close =>
      obtain rfl | rfl : quote = '"' ∨ quote = '\'' := by simpa [isQuote] using quoted
      · rfl
      · rfl
  | escape c _ ih =>
      rw [closeString, ih]
      rfl
  | plain not_slash not_quote _ ih =>
      rw [closeString_cons not_slash not_quote, ih]
      rfl

/-! ## The parts of a number -/

/-- The part of a number that starts with its point. -/
inductive PointPart : List Char → Prop
  | none : PointPart []
  | some {digits : List Char} (all : ∀ c ∈ digits, isDigitOrGap c = true) :
      PointPart ('.' :: digits)

/-- The exponent of a number. -/
inductive ExponentPart : List Char → Prop
  | none : ExponentPart []
  | some {mark : Char} {sign digits : List Char} (marks : (mark == 'e' || mark == 'E') = true)
      (signed : sign = [] ∨ sign = ['+'] ∨ sign = ['-']) (ne_nil : digits ≠ [])
      (all : ∀ c ∈ digits, c.isDigit = true) : ExponentPart (mark :: sign ++ digits)

theorem cutPoint_part (source : List Char) : PointPart (cutPoint source).1 := by
  unfold cutPoint
  split
  · exact .some fun _ => of_mem_span
  · exact .none

theorem cutExponentSign_part (source : List Char) :
    (cutExponentSign source).1 = [] ∨ (cutExponentSign source).1 = ['+'] ∨
      (cutExponentSign source).1 = ['-'] := by
  unfold cutExponentSign
  split <;> simp

theorem cutExponent_part (source : List Char) : ExponentPart (cutExponent source).1 := by
  unfold cutExponent
  split
  · exact .none
  · next c rest =>
    split
    · next hmark =>
      dsimp only
      split
      · exact .none
      · next hdigits =>
        rw [List.isEmpty_iff] at hdigits
        exact .some hmark (cutExponentSign_part rest) hdigits fun _ => of_mem_span
    · exact .none

/-- An exponent starts with its mark, which ends what is in front of it. -/
theorem ExponentPart.stops {exponent : List Char} (h : ExponentPart exponent) :
    ∀ c ∈ exponent.head?, isDigitOrGap c = false ∧ c ≠ '.' := by
  cases h with
  | none => exact nofun
  | @some mark sign digits marks _ _ _ =>
      intro c hc
      obtain rfl : mark = c := Option.some.inj hc
      obtain rfl | rfl : mark = 'e' ∨ mark = 'E' := by simpa using marks
      · decide
      · decide

theorem PointPart.stops {point exponent : List Char} (hpoint : PointPart point)
    (hexponent : ExponentPart exponent) :
    ∀ c ∈ (point ++ exponent).head?, isDigitOrGap c = false := by
  cases hpoint with
  | none => exact fun c hc => (hexponent.stops c hc).1
  | some _ =>
      intro c hc
      obtain rfl : '.' = c := Option.some.inj hc
      decide

theorem PointPart.cutPoint_eq {point exponent : List Char} (hpoint : PointPart point)
    (hexponent : ExponentPart exponent) : cutPoint (point ++ exponent) = (point, exponent) := by
  cases hpoint with
  | none =>
      rw [List.nil_append, cutPoint]
      rintro rest rfl
      exact (hexponent.stops '.' rfl).2 rfl
  | some all =>
      rw [List.cons_append, cutPoint, span_of_stops all fun c hc => (hexponent.stops c hc).1]

theorem cutExponentSign_eq {sign digits : List Char}
    (signed : sign = [] ∨ sign = ['+'] ∨ sign = ['-']) (all : ∀ c ∈ digits, c.isDigit = true) :
    cutExponentSign (sign ++ digits) = (sign, digits) := by
  have hdigit {c : Char} {rest : List Char} (hdigits : digits = c :: rest) : c.isDigit = true :=
    all c (hdigits ▸ List.mem_cons_self)
  rcases signed with rfl | rfl | rfl
  · rw [List.nil_append, cutExponentSign]
    · exact fun rest heq => absurd (hdigit heq) (by decide)
    · exact fun rest heq => absurd (hdigit heq) (by decide)
  · rfl
  · rfl

theorem ExponentPart.cutExponent_eq {exponent : List Char} (h : ExponentPart exponent) :
    cutExponent exponent = (exponent, []) := by
  cases h with
  | none => rfl
  | @some mark sign digits marks signed ne_nil all =>
      have hspan := @span_of_stops Char.isDigit digits [] all nofun
      rw [List.append_nil] at hspan
      rw [List.cons_append, cutExponent, if_pos marks, cutExponentSign_eq signed all]
      dsimp only
      rw [hspan, if_neg (by simpa using ne_nil)]
      rfl

/-- A number is cut whole from its parts. -/
theorem cutNumber_of_parts {whole point exponent : List Char}
    (hwhole : ∀ c ∈ whole, isDigitOrGap c = true) (hpoint : PointPart point)
    (hexponent : ExponentPart exponent) :
    cutNumber (whole ++ point ++ exponent) =
      .ok ⟨numberToken (point.isEmpty && exponent.isEmpty) (whole ++ point ++ exponent),
        whole ++ point ++ exponent, []⟩ := by
  unfold cutNumber
  rw [List.append_assoc, span_of_stops hwhole (hpoint.stops hexponent)]
  dsimp only
  rw [hpoint.cutPoint_eq hexponent]
  dsimp only
  rw [hexponent.cutExponent_eq, List.append_assoc]

/-- A number is cut again from its spelling alone, which starts a number too. -/
theorem cutNumber_alone {source : List Char} {cut : Cut} (hstarts : startsNumber source = true)
    (h : cutNumber source = .ok cut) :
    startsNumber cut.text = true ∧ cutNumber cut.text = .ok { cut with rest := [] } := by
  have hstarts := startsNumber_parts hstarts
    (cutExponent (cutPoint (source.span isDigitOrGap).2).2).1
  have hwhole : ∀ c ∈ (source.span isDigitOrGap).1, isDigitOrGap c = true := fun _ => of_mem_span
  have hnumber := cutNumber_of_parts hwhole (cutPoint_part (source.span isDigitOrGap).2)
    (cutExponent_part (cutPoint (source.span isDigitOrGap).2).2)
  unfold cutNumber at h
  dsimp only at h
  split at h
  · cases h
    exact ⟨hstarts, hnumber⟩
  · split at h <;> cases h
    exact ⟨hstarts, hnumber⟩

/-! ## All tokens -/

theorem cutWord_alone (source : List Char) :
    cutWord (cutWord source).text = { cutWord source with rest := [] } := by
  have hspan := @span_of_stops Text.continuesWord (source.span Text.continuesWord).1 []
    (fun _ => of_mem_span) nofun
  rw [List.append_nil] at hspan
  cases hkeyword : Keyword.ofSpelling? (String.ofList (source.span Text.continuesWord).1) <;>
    simp only [cutWord, hkeyword, hspan]

theorem cutSign_alone {source : List Char} {cut : Cut} (h : cutSign? source = some cut) :
    cutSign? cut.text = some { cut with rest := [] } := by
  unfold cutSign? at h
  split at h <;> cases h
  all_goals rfl

/-- A sign is no start of a number, whatever stands behind it in the text. -/
theorem not_startsNumber_of_cutSign {source : List Char} {cut : Cut}
    (h : cutSign? source = some cut) : startsNumber cut.text = false := by
  unfold cutSign? at h
  split at h <;> cases h
  all_goals rfl

/-- A token is cut again from its spelling alone. -/
theorem cutToken_alone {c : Char} {rest : List Char} {cut : Cut} (h : cutToken c rest = .ok cut) :
    ∃ tail, cut.text = c :: tail ∧ cutToken c tail = .ok { cut with rest := [] } := by
  obtain ⟨tail, htail⟩ : ∃ tail, cut.text = c :: tail := by
    have htakes := cutToken_takes h
    obtain ⟨first, tail, htext⟩ := List.exists_cons_of_ne_nil htakes.text_ne_nil
    have hspelled := htakes.spelled
    rw [htext, List.cons_append] at hspelled
    exact ⟨tail, (List.cons.inj hspelled).1 ▸ htext⟩
  refine ⟨tail, htail, ?_⟩
  unfold cutToken at h ⊢
  split at h
  · next hquote =>
    split at h <;> cases h
    next hclose =>
    obtain rfl := (List.cons.inj htail).2
    rw [if_pos hquote, (closes_of_closeString hclose).closeString_eq hquote]
  · next hquote =>
    rw [if_neg hquote, ← htail]
    split at h
    · next hstarts =>
      obtain ⟨hstarts, hnumber⟩ := cutNumber_alone hstarts h
      rw [if_pos hstarts, hnumber]
    · next hstarts =>
      split at h
      · next hword =>
        cases h
        have hstart := wordStart_of_startsWord hquote hstarts hword
        have hnumber := hstart.not_startsNumber tail
        rw [← htail] at hnumber
        rw [if_neg (by simp [hnumber]), if_pos hword, cutWord_alone]
      · next hword =>
        split at h <;> cases h
        next hsign =>
        rw [if_neg (by simp [not_startsNumber_of_cutSign hsign]), if_neg hword,
          cutSign_alone hsign]

/-- The spelling of a lexeme is a text of a single token, without blanks around it. -/
theorem scan_alone {source : List Char} {ls : List Lexeme} (h : scan source = .ok ls) :
    ∀ l ∈ ls, scan l.text = .ok [⟨[], l.text, l.token⟩] := by
  refine forall_mem_of_scan h fun blank c rest cut visible first => ?_
  obtain ⟨tail, htext, hcut⟩ := cutToken_alone first
  dsimp only
  rw [htext, scan_cons visible hcut, scan_nil, htext]
  rfl

/-- Every name in a text is a phrase of one word. -/
theorem scan_names {source : List Char} {ls : List Lexeme} (h : scan source = .ok ls) {n : String}
    (hn : .name n ∈ ls.map Lexeme.token) : Token.scan n.toList = .ok [.name n] := by
  obtain ⟨l, hl, htoken⟩ := List.mem_map.mp hn
  have halone := scan_alone h l hl
  have htext : l.text = n.toList := ((scan_writtenAs h l hl).of_name htoken).1
  rw [htext, htoken] at halone
  rw [Token.scan, halone]
  rfl

end Lexeme

namespace Token

/-- A text that is a single token, with a space and another text behind it. -/
theorem scan_append_space {text : List Char} {t : Token}
    (h : Lexeme.scan text = .ok [⟨[], text, t⟩]) (more : List Char) :
    scan (text ++ ' ' :: more) = (scan more).map (t :: ·) := by
  have hends : Lexeme.EndsToken ' ' := Lexeme.endsToken_of_isBlank rfl
  obtain ⟨tail, -, happend, hscan⟩ := Lexeme.scan_append_ended hends h more
  obtain rfl : tail = [] := by simpa [Lexeme.chars] using happend
  rw [scan_of_scan hscan, List.nil_append, scan_blank rfl]

/-- Texts of a single token each, put one behind another with spaces, have these tokens. -/
theorem scan_intercalate {ls : List Lexeme}
    (h : ∀ l ∈ ls, Lexeme.scan l.text = .ok [⟨[], l.text, l.token⟩]) :
    scan ([' '].intercalate (ls.map Lexeme.text)) = .ok (ls.map Lexeme.token) := by
  induction ls with
  | nil => rfl
  | cons l ls ih =>
      obtain ⟨hfirst, hothers⟩ := List.forall_mem_cons.mp h
      cases ls with
      | nil =>
          rw [List.map_singleton, List.intercalate_singleton, scan, hfirst]
          rfl
      | cons next ls =>
          have hmore := ih hothers
          rw [List.map_cons, List.map_cons] at hmore ⊢
          rw [List.intercalate_cons_cons, List.append_assoc, List.singleton_append,
            scan_append_space hfirst, hmore]
          rfl

end Token

end Parlance
