import Parlance.Proofs.Expr.Scanning

/-!
# What tokens are written with

A token is a literal text, a number, a word or a sign, and each kind is written with characters of
its own. Whatever is cut from a text is written in one of these ways, so facts about the characters
of a text are proved kind by kind.
-/

namespace Parlance

namespace Lexeme

/-- Whether a character opens a literal text. -/
def isQuote (c : Char) : Bool :=
  c == '"' || c == '\''

/-- Whether a character can stand in a number. -/
def isNumeral (c : Char) : Bool :=
  isDigitOrGap c || c == '.' || c == 'e' || c == 'E' || c == '+' || c == '-'

/-- What a literal text stands for and how it is spelled behind its opening quote. -/
inductive Closes (quote : Char) : List Char → List Char → Prop
  | close : Closes quote [] [quote]
  | escape {content spelling : List Char} (c : Char) (more : Closes quote content spelling) :
      Closes quote (unescape c ++ content) ('\\' :: c :: spelling)
  | plain {c : Char} {content spelling : List Char} (not_slash : c ≠ '\\') (not_quote : c ≠ quote)
      (more : Closes quote content spelling) : Closes quote (c :: content) (c :: spelling)

end Lexeme

/-- How a token is written. -/
inductive Token.WrittenAs : Token → List Char → Prop
  | text {quote : Char} {content spelling : List Char} (quoted : Lexeme.isQuote quote = true)
      (closes : Lexeme.Closes quote content spelling) :
      WrittenAs (.str (String.ofList content)) (quote :: spelling)
  | number {spelling : List Char} (isWhole : Bool)
      (numerals : ∀ c ∈ spelling, Lexeme.isNumeral c = true) :
      WrittenAs (Lexeme.numberToken isWhole spelling) spelling
  | keyword {k : Keyword} {spelling : List Char} (letters : ∀ c ∈ spelling, Text.continuesWord c = true)
      (reserved : Keyword.ofSpelling? (String.ofList spelling) = some k) :
      WrittenAs (.keyword k) spelling
  | name {spelling : List Char} (letters : ∀ c ∈ spelling, Text.continuesWord c = true) :
      WrittenAs (.name (String.ofList spelling)) spelling
  | sign (s : Sign) : WrittenAs (.sign s) s.spelling.toList

/-- A name is written with its own characters, which are those of a word. -/
theorem Token.WrittenAs.of_name {t : Token} {spelling : List Char} (h : t.WrittenAs spelling)
    {n : String} (hn : t = .name n) :
    spelling = n.toList ∧ ∀ c ∈ spelling, Text.continuesWord c = true := by
  cases h with
  | name letters =>
      cases hn
      exact ⟨String.toList_ofList.symm, letters⟩
  | number isWhole numerals =>
      unfold Lexeme.numberToken at hn
      dsimp only at hn
      split at hn <;> cases hn
  | _ => cases hn

namespace Lexeme

theorem Closes.ne_nil {quote : Char} {content spelling : List Char}
    (h : Closes quote content spelling) : spelling ≠ [] := by
  cases h with
  | close => exact List.cons_ne_nil _ _
  | escape c more => exact List.cons_ne_nil _ _
  | plain not_slash not_quote more => exact List.cons_ne_nil _ _

theorem closes_of_closeString {quote : Char} {text content spelling tail : List Char}
    (h : closeString quote text = some (content, spelling, tail)) :
    Closes quote content spelling := by
  fun_induction closeString quote text generalizing content spelling tail with
  | case1 => cases h
  | case2 => cases h
  | case3 c rest ih =>
      obtain ⟨⟨content', spelling', tail'⟩, hrest, heq⟩ := Option.map_eq_some_iff.mp h
      cases heq
      exact .escape c (ih hrest)
  | case4 c rest _ _ hquote =>
      cases h
      rw [beq_iff_eq.mp hquote]
      exact .close
  | case5 c rest hlast hescape hquote ih =>
      obtain ⟨⟨content', spelling', tail'⟩, hrest, heq⟩ := Option.map_eq_some_iff.mp h
      cases heq
      have not_slash : c ≠ '\\' := by
        intro hc
        cases rest with
        | nil => exact hlast hc rfl
        | cons d rest => exact hescape d rest hc rfl
      exact .plain not_slash (by simpa using hquote) (ih hrest)

/-! ## Numbers -/

theorem isNumeral_of_isDigitOrGap {c : Char} (h : isDigitOrGap c = true) : isNumeral c = true := by
  simp [isNumeral, h]

theorem isNumeral_of_isDigit {c : Char} (h : c.isDigit = true) : isNumeral c = true :=
  isNumeral_of_isDigitOrGap (by simp [isDigitOrGap, h])

theorem numerals_span {p : Char → Bool} (hp : ∀ c, p c = true → isNumeral c = true)
    (source : List Char) : ∀ c ∈ (source.span p).1, isNumeral c = true :=
  fun c hc => hp c (of_mem_span hc)

theorem numerals_cutPoint (source : List Char) : ∀ c ∈ (cutPoint source).1, isNumeral c = true := by
  unfold cutPoint
  split
  · next rest =>
    intro c hc
    rcases List.mem_cons.mp hc with rfl | hc
    · rfl
    · exact numerals_span (fun _ => isNumeral_of_isDigitOrGap) rest c hc
  · exact nofun

theorem numerals_cutExponentSign (source : List Char) :
    ∀ c ∈ (cutExponentSign source).1, isNumeral c = true := by
  unfold cutExponentSign
  split
  · simp [isNumeral]
  · simp [isNumeral]
  · exact nofun

theorem numerals_cutExponent (source : List Char) :
    ∀ c ∈ (cutExponent source).1, isNumeral c = true := by
  unfold cutExponent
  split
  · exact nofun
  · next c rest =>
    split
    · next hmark =>
      dsimp only
      split
      · exact nofun
      · intro d hd
        rcases List.mem_append.mp hd with hd | hd
        · rcases List.mem_cons.mp hd with rfl | hd
          · obtain rfl | rfl : d = 'e' ∨ d = 'E' := by simpa using hmark
            · rfl
            · rfl
          · exact numerals_cutExponentSign rest d hd
        · exact numerals_span (fun _ => isNumeral_of_isDigit) _ d hd
    · exact nofun

theorem cutNumber_writtenAs {source : List Char} {cut : Cut} (h : cutNumber source = .ok cut) :
    cut.token.WrittenAs cut.text := by
  have numerals : ∀ c ∈ (source.span isDigitOrGap).1 ++
      (cutPoint (source.span isDigitOrGap).2).1 ++
      (cutExponent (cutPoint (source.span isDigitOrGap).2).2).1, isNumeral c = true := by
    intro c hc
    rcases List.mem_append.mp hc with hc | hc
    · rcases List.mem_append.mp hc with hc | hc
      · exact numerals_span (fun _ => isNumeral_of_isDigitOrGap) source c hc
      · exact numerals_cutPoint _ c hc
    · exact numerals_cutExponent _ c hc
  unfold cutNumber at h
  dsimp only at h
  split at h
  · cases h
    exact .number _ numerals
  · split at h
    · cases h
    · cases h
      exact .number _ numerals

/-! ## All tokens -/

theorem cutWord_writtenAs (source : List Char) :
    (cutWord source).token.WrittenAs (cutWord source).text := by
  have letters : ∀ c ∈ (source.span Text.continuesWord).1, Text.continuesWord c = true :=
    fun _ => of_mem_span
  unfold cutWord
  dsimp only
  split
  · next k hk => exact .keyword letters hk
  · exact .name letters

theorem cutSign_writtenAs {source : List Char} {cut : Cut} (h : cutSign? source = some cut) :
    cut.token.WrittenAs cut.text := by
  unfold cutSign? at h
  split at h <;> cases h
  all_goals exact .sign _

theorem cutToken_writtenAs {c : Char} {rest : List Char} {cut : Cut}
    (h : cutToken c rest = .ok cut) : cut.token.WrittenAs cut.text := by
  unfold cutToken at h
  split at h
  · next hquote =>
    split at h
    · next hclose =>
      cases h
      exact .text hquote (closes_of_closeString hclose)
    · cases h
  · split at h
    · exact cutNumber_writtenAs h
    · split at h
      · cases h
        exact cutWord_writtenAs _
      · split at h
        · next hsign =>
          cases h
          exact cutSign_writtenAs hsign
        · cases h

theorem scan_writtenAs {source : List Char} {ls : List Lexeme} (h : scan source = .ok ls) :
    ∀ l ∈ ls, l.token.WrittenAs l.text :=
  forall_mem_of_scan h fun _ _ _ _ _ first => cutToken_writtenAs first

end Lexeme

end Parlance
