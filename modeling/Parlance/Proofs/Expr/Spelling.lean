import Mathlib.Data.List.TakeDrop
import Parlance.Expr.Lexeme

/-!
# Lexemes spell the text

Cutting a token takes at least one character, and its spelling and the rest give back the text it
was cut from. So the lexemes of a text, put one after another, are the text up to the blanks at its
end, and cutting it never runs out of fuel.
-/

namespace Parlance

/-- A cut that takes a non-empty spelling from the front of a text. -/
structure Cut.Takes (cut : Cut) (source : List Char) : Prop where
  spelled : source = cut.text ++ cut.rest
  text_ne_nil : cut.text ≠ []

theorem Cut.Takes.length_lt {cut : Cut} {source : List Char} (h : cut.Takes source) :
    cut.rest.length < source.length := by
  rw [h.spelled, List.length_append]
  have := List.length_pos_iff.mpr h.text_ne_nil
  omega

namespace Lexeme

theorem span_append (p : Char → Bool) (text : List Char) :
    (text.span p).1 ++ (text.span p).2 = text := by
  rw [List.span_eq_takeWhile_dropWhile]
  exact List.takeWhile_append_dropWhile

theorem of_mem_span {p : Char → Bool} {text : List Char} {c : Char} (h : c ∈ (text.span p).1) :
    p c = true := by
  rw [List.span_eq_takeWhile_dropWhile] at h
  exact List.all_eq_true.mp List.all_takeWhile c h

theorem closeString_spelled {quote : Char} {text content spelling tail : List Char}
    (h : closeString quote text = some (content, spelling, tail)) : text = spelling ++ tail := by
  fun_induction closeString quote text generalizing content spelling tail with
  | case1 => cases h
  | case2 => cases h
  | case3 c rest ih =>
      obtain ⟨⟨content', spelling', tail'⟩, hrest, heq⟩ := Option.map_eq_some_iff.mp h
      cases heq
      rw [ih hrest]
      rfl
  | case4 c rest _ _ hq =>
      cases h
      rfl
  | case5 c rest _ _ hq ih =>
      obtain ⟨⟨content', spelling', tail'⟩, hrest, heq⟩ := Option.map_eq_some_iff.mp h
      cases heq
      rw [ih hrest]
      rfl

theorem cutPoint_append (text : List Char) : (cutPoint text).1 ++ (cutPoint text).2 = text := by
  unfold cutPoint
  split
  · exact congrArg ('.' :: ·) (span_append isDigitOrGap _)
  · rfl

theorem cutExponentSign_append (text : List Char) :
    (cutExponentSign text).1 ++ (cutExponentSign text).2 = text := by
  unfold cutExponentSign
  split <;> rfl

theorem cutExponent_append (text : List Char) :
    (cutExponent text).1 ++ (cutExponent text).2 = text := by
  unfold cutExponent
  split
  · rfl
  · next c rest =>
    split
    · dsimp only
      split
      · rfl
      · have hsign := cutExponentSign_append rest
        have hdigits := span_append Char.isDigit (cutExponentSign rest).2
        simp only [List.cons_append, List.append_assoc, hdigits, hsign]
    · rfl

/-- The parts that a number is made of. -/
theorem cutNumber_parts (source : List Char) :
    (source.span isDigitOrGap).1 ++ (cutPoint (source.span isDigitOrGap).2).1 ++
        (cutExponent (cutPoint (source.span isDigitOrGap).2).2).1 ++
        (cutExponent (cutPoint (source.span isDigitOrGap).2).2).2 = source := by
  rw [List.append_assoc, List.append_assoc, cutExponent_append, cutPoint_append, span_append]

theorem startsNumber_of_isDigit {c : Char} (h : c.isDigit = true) (rest : List Char) :
    startsNumber (c :: rest) = true := by
  rw [startsNumber]
  · exact h
  · rintro d more rfl
    exact absurd h (by decide)

/-- What starts a number is a digit, or a point with a digit behind it. -/
theorem startsNumber_cases {source : List Char} (h : startsNumber source = true) :
    (∃ c rest, source = c :: rest ∧ c.isDigit = true) ∨
      ∃ d rest, source = '.' :: d :: rest ∧ d.isDigit = true := by
  unfold startsNumber at h
  split at h
  · exact .inr ⟨_, _, rfl, h⟩
  · exact .inl ⟨_, _, rfl, h⟩
  · cases h

theorem ne_nil_of_startsNumber {source : List Char} (h : startsNumber source = true) :
    source ≠ [] := by
  rintro rfl
  cases h

/-- Whatever starts a number is in its first two parts. -/
theorem startsNumber_parts {source : List Char} (h : startsNumber source = true)
    (exponent : List Char) :
    startsNumber ((source.span isDigitOrGap).1 ++ (cutPoint (source.span isDigitOrGap).2).1 ++
      exponent) = true := by
  rw [List.span_eq_takeWhile_dropWhile]
  rcases startsNumber_cases h with ⟨c, rest, rfl, hdigit⟩ | ⟨d, rest, rfl, hdigit⟩
  · have hc : isDigitOrGap c = true := by simp [isDigitOrGap, hdigit]
    simp only [List.takeWhile_cons, hc, if_true, List.cons_append]
    exact startsNumber_of_isDigit hdigit _
  · have hd : isDigitOrGap d = true := by simp [isDigitOrGap, hdigit]
    have hpoint : isDigitOrGap '.' = false := by decide
    simpa [hpoint, cutPoint, List.span_eq_takeWhile_dropWhile, hd, startsNumber] using hdigit

theorem cutNumber_takes {source : List Char} {cut : Cut} (hs : startsNumber source = true)
    (h : cutNumber source = .ok cut) : cut.Takes source := by
  have hparts := cutNumber_parts source
  have hne := ne_nil_of_startsNumber (startsNumber_parts hs
    (cutExponent (cutPoint (source.span isDigitOrGap).2).2).1)
  unfold cutNumber at h
  dsimp only at h
  split at h
  · cases h
    exact ⟨hparts.symm, hne⟩
  · split at h
    · cases h
    · cases h
      exact ⟨hparts.symm, hne⟩

theorem cutWord_takes {c : Char} {rest : List Char} (h : Text.startsWord c = true) :
    (cutWord (c :: rest)).Takes (c :: rest) := by
  have hc : Text.continuesWord c = true := by
    simp only [Text.startsWord, Text.continuesWord, Bool.or_eq_true] at h ⊢
    rcases h with h | h
    · exact .inl (.inl h)
    · exact .inr h
  have happend := span_append Text.continuesWord (c :: rest)
  have hne : ((c :: rest).span Text.continuesWord).1 ≠ [] := by
    rw [List.span_eq_takeWhile_dropWhile]
    simp [hc]
  unfold cutWord
  dsimp only
  split <;> exact ⟨happend.symm, hne⟩

theorem cutSign_takes {source : List Char} {cut : Cut} (h : cutSign? source = some cut) :
    cut.Takes source := by
  unfold cutSign? at h
  split at h <;> cases h
  all_goals exact ⟨rfl, List.cons_ne_nil _ _⟩

theorem cutToken_takes {c : Char} {rest : List Char} {cut : Cut} (h : cutToken c rest = .ok cut) :
    cut.Takes (c :: rest) := by
  unfold cutToken at h
  split at h
  · split at h
    · next hclose =>
      cases h
      exact ⟨congrArg (c :: ·) (closeString_spelled hclose), List.cons_ne_nil _ _⟩
    · cases h
  · split at h
    · next hnumber => exact cutNumber_takes hnumber h
    · split at h
      · next hword =>
        cases h
        exact cutWord_takes hword
      · split at h
        · next hsign =>
          cases h
          exact cutSign_takes hsign
        · cases h

/-- Lexemes that spell a text, up to blanks at its end. -/
inductive Spell : List Lexeme → List Char → Prop
  | nil {tail : List Char} (blank : ∀ c ∈ tail, Text.isBlank c = true) : Spell [] tail
  | cons {l : Lexeme} {ls : List Lexeme} {rest : List Char}
      (blank : ∀ c ∈ l.blank, Text.isBlank c = true) (text_ne_nil : l.text ≠ [])
      (more : Spell ls rest) : Spell (l :: ls) (l.blank ++ (l.text ++ rest))

/-- A text that is cut into lexemes up to a rest. Each of them is cut with everything behind it in
view. -/
inductive Cuts : List Char → List Lexeme → List Char → Prop
  | nil {rest : List Char} : Cuts rest [] rest
  | cons {blank rest tail : List Char} {c : Char} {cut : Cut} {ls : List Lexeme}
      (blanks : ∀ b ∈ blank, Text.isBlank b = true) (visible : Text.isBlank c = false)
      (first : cutToken c rest = .ok cut) (more : Cuts cut.rest ls tail) :
      Cuts (blank ++ c :: rest) (⟨blank, cut.text, cut.token⟩ :: ls) tail

theorem exists_cuts_of_scanFuel {fuel : Nat} {source : List Char} {ls : List Lexeme}
    (hfuel : source.length ≤ fuel) (h : scanFuel fuel source = .ok ls) :
    ∃ tail, (∀ c ∈ tail, Text.isBlank c = true) ∧ Cuts source ls tail := by
  induction fuel generalizing source ls with
  | zero =>
      cases h
      rw [List.length_eq_zero_iff.mp (Nat.le_zero.mp hfuel)]
      exact ⟨[], nofun, .nil⟩
  | succ fuel ih =>
      have hblank : ∀ c ∈ (source.span Text.isBlank).1, Text.isBlank c = true :=
        fun _ => of_mem_span
      have hvisible : ∀ c ∈ (source.span Text.isBlank).2.head?, Text.isBlank c = false := by
        intro c hc
        have hhead := List.head?_dropWhile_not Text.isBlank source
        rw [List.span_eq_takeWhile_dropWhile] at hc
        simpa [show (source.dropWhile Text.isBlank).head? = some c from hc] using hhead
      have happend := span_append Text.isBlank source
      simp only [scanFuel] at h
      generalize source.span Text.isBlank = parts at h hblank hvisible happend
      obtain ⟨blank, text⟩ := parts
      dsimp only at hblank hvisible happend
      subst happend
      cases text with
      | nil =>
          cases h
          rw [List.append_nil]
          exact ⟨blank, hblank, .nil⟩
      | cons c rest =>
          dsimp only at h
          split at h
          · cases h
          · next cut hcut =>
            split at h
            · cases h
            · next more hmore =>
              cases h
              have hlt := (cutToken_takes hcut).length_lt
              rw [List.length_append] at hfuel
              obtain ⟨tail, htail, hcuts⟩ := ih (by omega) hmore
              exact ⟨tail, htail, .cons hblank (hvisible c rfl) hcut hcuts⟩

/-- The lexemes of a text are cut from it up to blanks at its end. -/
theorem exists_cuts {source : List Char} {ls : List Lexeme} (h : scan source = .ok ls) :
    ∃ tail, (∀ c ∈ tail, Text.isBlank c = true) ∧ Cuts source ls tail :=
  exists_cuts_of_scanFuel (Nat.le_refl _) h

theorem Cuts.eq_append {source tail : List Char} {ls : List Lexeme} (h : Cuts source ls tail) :
    source = ls.flatMap chars ++ tail := by
  induction h with
  | nil => rfl
  | cons _ _ first _ ih =>
      rw [(cutToken_takes first).spelled, ih]
      simp [chars]

theorem Cuts.spell {source tail : List Char} {ls : List Lexeme} (h : Cuts source ls tail)
    (htail : ∀ c ∈ tail, Text.isBlank c = true) : Spell ls source := by
  induction h with
  | nil => exact .nil htail
  | cons blanks _ first _ ih =>
      rw [(cutToken_takes first).spelled]
      exact .cons blanks (cutToken_takes first).text_ne_nil (ih htail)

theorem scan_spell {source : List Char} {ls : List Lexeme} (h : scan source = .ok ls) :
    Spell ls source := by
  obtain ⟨tail, htail, hcuts⟩ := exists_cuts h
  exact hcuts.spell htail

/-- What holds of whatever is cut from the front of a text holds of all its lexemes. -/
theorem forall_mem_of_scan {P : Lexeme → Prop} {source : List Char} {ls : List Lexeme}
    (h : scan source = .ok ls)
    (hP : ∀ blank {c : Char} {rest : List Char} {cut : Cut}, Text.isBlank c = false →
      cutToken c rest = .ok cut → P ⟨blank, cut.text, cut.token⟩) : ∀ l ∈ ls, P l := by
  obtain ⟨tail, -, hcuts⟩ := exists_cuts h
  clear h
  induction hcuts with
  | nil => exact nofun
  | cons _ visible first _ ih => exact List.forall_mem_cons.mpr ⟨hP _ visible first, ih⟩

/-- Any two amounts of fuel that reach the length of a text cut it alike. -/
theorem scanFuel_eq {fuel fuel' : Nat} {source : List Char} (hfuel : source.length ≤ fuel)
    (hfuel' : source.length ≤ fuel') : scanFuel fuel source = scanFuel fuel' source := by
  induction fuel generalizing fuel' source with
  | zero =>
      rw [List.length_eq_zero_iff.mp (Nat.le_zero.mp hfuel)]
      cases fuel' <;> rfl
  | succ fuel ih =>
      cases fuel' with
      | zero =>
          rw [List.length_eq_zero_iff.mp (Nat.le_zero.mp hfuel')]
          rfl
      | succ fuel' =>
          have happend := congrArg List.length (span_append Text.isBlank source)
          rw [List.length_append] at happend
          simp only [scanFuel]
          split
          · rfl
          · next c rest htext =>
            split
            · rfl
            · next cut hcut =>
              have hlt := (cutToken_takes hcut).length_lt
              rw [← htext] at hlt
              have hfuel : cut.rest.length ≤ fuel := by omega
              have hfuel' : cut.rest.length ≤ fuel' := by omega
              rw [ih hfuel hfuel']

theorem Spell.length_le {ls : List Lexeme} {source : List Char} (h : Spell ls source) :
    (ls.flatMap chars).length ≤ source.length := by
  induction h with
  | nil _ => simp
  | cons _ _ _ ih =>
      simp only [List.flatMap_cons, List.length_append, chars]
      omega

theorem Spell.text_ne_nil {ls : List Lexeme} {source : List Char} (h : Spell ls source) {l : Lexeme}
    (hl : l ∈ ls) : l.text ≠ [] := by
  induction h with
  | nil _ => cases hl
  | cons _ hne _ ih =>
      rcases List.mem_cons.mp hl with rfl | hl
      · exact hne
      · exact ih hl

end Lexeme

end Parlance
