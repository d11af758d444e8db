import Parlance.Number.Written
import Parlance.Proofs.Expr.Scanning
import Parlance.Proofs.Text.Quoting

/-!
# Literals are single tokens

Quoting a text and reading a literal undo each other, whatever characters the text holds and
whatever stands behind it. A number or a reserved word is cut whole where a comma, a closing bracket
or nothing follows.
-/

namespace Parlance

/-! ## Texts -/

namespace Text

theorem byteLength_eq (text : List Char) : byteLength text = (String.ofList text).utf8ByteSize := by
  have hfrom (size : Nat) : text.foldl (fun size c => size + c.utf8Size) size =
      size + (String.ofList text).utf8ByteSize := by
    induction text generalizing size with
    | nil => simp
    | cons c text ih =>
        rw [List.foldl_cons, ih, String.ofList_cons, String.utf8ByteSize_append,
          String.utf8ByteSize_singleton]
        omega
  rw [byteLength, hfrom, Nat.zero_add]

end Text

namespace Lexeme

/-- Reading one character behind another. -/
theorem closeString_cons {quote c : Char} (hslash : c ≠ '\\') (hquote : c ≠ quote)
    (rest : List Char) :
    closeString quote (c :: rest) = (closeString quote rest).map fun (content, text, tail) =>
      (c :: content, c :: text, tail) := by
  rw [closeString]
  · rw [if_neg (by simpa using hquote)]
  · intro hc
    exact absurd hc hslash
  · intro d more hc
    exact absurd hc hslash

theorem closeString_escaped {quote c : Char} (h : quote = '"' ∨ quote = '\'') (rest : List Char) :
    closeString quote (Text.escapeChar quote c ++ rest) =
      (closeString quote rest).map fun (content, text, tail) =>
        (c :: content, Text.escapeChar quote c ++ text, tail) := by
  unfold Text.escapeChar
  split
  · rfl
  · rfl
  · rfl
  · rfl
  · next hslash _ _ _ =>
    by_cases hquote : c = quote
    · subst hquote
      rw [if_pos (beq_self_eq_true c)]
      rcases h with rfl | rfl <;> rfl
    · rw [if_neg (by simpa using hquote)]
      exact closeString_cons hslash hquote rest

theorem closeString_quoted {quote : Char} (h : quote = '"' ∨ quote = '\'')
    (text rest : List Char) :
    closeString quote (text.flatMap (Text.escapeChar quote) ++ quote :: rest) =
      some (text, text.flatMap (Text.escapeChar quote) ++ [quote], rest) := by
  induction text with
  | nil =>
      rcases h with rfl | rfl
      · simp [closeString]
      · simp [closeString]
  | cons c text ih =>
      rw [List.flatMap_cons, List.append_assoc, closeString_escaped h, ih]
      simp

/-- A quoted text is cut whole, and stands for the text. -/
theorem scan_quoteChars (text rest : List Char) :
    scan (Text.quoteChars text ++ rest) =
      (scan rest).map (⟨[], Text.quoteChars text, .str (String.ofList text)⟩ :: ·) := by
  have hquote := Text.chooseQuote_eq text
  have hclose := closeString_quoted hquote text rest
  unfold Text.quoteChars
  generalize Text.chooseQuote text = quote at hquote hclose
  have hblank : Text.isBlank quote = false := by
    rcases hquote with rfl | rfl <;> decide
  have hcut : cutToken quote (text.flatMap (Text.escapeChar quote) ++ quote :: rest) =
      .ok ⟨.str (String.ofList text), quote :: (text.flatMap (Text.escapeChar quote) ++ [quote]),
        rest⟩ := by
    unfold cutToken
    rw [if_pos (by rcases hquote with rfl | rfl <;> rfl), hclose]
  simpa using scan_cons hblank hcut

/-! ## Numbers and reserved words -/

/-- Nothing follows, or what stands behind an element of a list. -/
def ClosesElement (rest : List Char) : Prop :=
  ∀ c ∈ rest.head?, c = ',' ∨ c = ']'

theorem ClosesElement.stops {rest : List Char} (h : ClosesElement rest) {p : Char → Bool}
    (hcomma : p ',' = false) (hbracket : p ']' = false) : ∀ c ∈ rest.head?, p c = false := by
  intro c hc
  rcases h c hc with rfl | rfl
  · exact hcomma
  · exact hbracket

theorem ClosesElement.cutPoint_eq {rest : List Char} (h : ClosesElement rest) :
    cutPoint rest = ([], rest) := by
  unfold cutPoint
  split
  · exact absurd (h '.' rfl) (by decide)
  · rfl

theorem ClosesElement.cutExponent_eq {rest : List Char} (h : ClosesElement rest) :
    cutExponent rest = ([], rest) := by
  cases rest with
  | nil => rfl
  | cons c rest =>
      rcases h c rfl with rfl | rfl
      · rfl
      · rfl

theorem digit_of_mem_toDigits {n : Nat} {c : Char} (h : c ∈ Nat.toDigits 10 n) :
    c.isDigit = true :=
  Nat.isDigit_of_mem_toDigits (by decide) (by decide) h

theorem readNat?_toDigits (n : Nat) : Number.readNat? (Nat.toDigits 10 n) = some n := by
  have hdigits : (Nat.toDigits 10 n).all Char.isDigit = true :=
    List.all_eq_true.mpr fun c hc => digit_of_mem_toDigits hc
  have hvalue : Number.digitsValue (Nat.toDigits 10 n) = n :=
    Nat.ofDigitChars_toDigits (by decide) (by decide)
  unfold Number.readNat?
  rw [hdigits, hvalue, if_pos (by simp)]

theorem cutSign_of_digit {text : List Char} (h : ∀ c ∈ text, c.isDigit = true) :
    Number.cutSign text = (false, text) := by
  unfold Number.cutSign
  split
  · exact absurd (h '-' List.mem_cons_self) (by decide)
  · exact absurd (h '+' List.mem_cons_self) (by decide)
  · rfl

theorem numberToken_toDigits {n : Nat} {i : Int64} (h : i.toInt = n) :
    numberToken true (Nat.toDigits 10 n) = .int i := by
  have hfilter : (Nat.toDigits 10 n).filter (· != '_') = Nat.toDigits 10 n := by
    refine List.filter_eq_self.mpr fun c hc => ?_
    have hdigit := digit_of_mem_toDigits hc
    by_contra hgap
    have hc : c = '_' := by simpa using hgap
    rw [hc] at hdigit
    exact absurd hdigit (by decide)
  have hrange : Number.inInt64 n = true := by
    have hlow := i.minValue_le_toInt
    have hhigh := i.toInt_le
    rw [Number.inInt64, Bool.and_eq_true, decide_eq_true_iff, decide_eq_true_iff, ← h]
    exact ⟨hlow, hhigh⟩
  have hread : Number.readInt? (Nat.toDigits 10 n) = some i := by
    unfold Number.readInt?
    rw [cutSign_of_digit fun c => digit_of_mem_toDigits]
    dsimp only
    rw [readNat?_toDigits, Option.bind_some, if_neg Bool.false_ne_true, Number.toInt64?,
      if_pos hrange, ← h, Int64.ofInt_toInt]
  unfold numberToken
  dsimp only
  rw [hfilter, if_pos rfl, hread]

/-- The digits of a number are cut whole. -/
theorem scan_toDigits {n : Nat} {i : Int64} (h : i.toInt = n) {rest : List Char}
    (hrest : ClosesElement rest) :
    scan (Nat.toDigits 10 n ++ rest) =
      (scan rest).map (⟨[], Nat.toDigits 10 n, .int i⟩ :: ·) := by
  have hgap (c : Char) (hc : c ∈ Nat.toDigits 10 n) : isDigitOrGap c = true := by
    simp [isDigitOrGap, digit_of_mem_toDigits hc]
  have hnumber : cutNumber (Nat.toDigits 10 n ++ rest) = .ok ⟨.int i, Nat.toDigits 10 n, rest⟩ := by
    unfold cutNumber
    rw [span_of_stops hgap (hrest.stops rfl rfl)]
    dsimp only
    rw [hrest.cutPoint_eq]
    dsimp only
    rw [hrest.cutExponent_eq]
    simp only [List.append_nil, List.isEmpty_nil, Bool.and_true, numberToken_toDigits h]
    split
    · rfl
    · next c tail =>
      have hword : Text.startsWord c = false := hrest.stops (p := Text.startsWord) rfl rfl c rfl
      rw [if_neg (by simp [hword])]
  obtain ⟨d, ds, hds⟩ := List.exists_cons_of_ne_nil (Nat.toDigits_ne_nil (b := 10) (n := n))
  have hd : d.isDigit = true := digit_of_mem_toDigits (hds ▸ List.mem_cons_self)
  have hcut : cutToken d (ds ++ rest) = .ok ⟨.int i, Nat.toDigits 10 n, rest⟩ := by
    have hquote : (d == '"' || d == '\'') = false := by
      by_contra hd'
      simp only [Bool.not_eq_false, Bool.or_eq_true, beq_iff_eq] at hd'
      rcases hd' with rfl | rfl <;> exact absurd hd (by decide)
    have hstart : startsNumber (d :: (ds ++ rest)) = true := by
      unfold startsNumber
      split
      · next heq =>
        rw [(List.cons.inj heq).1] at hd
        exact absurd hd (by decide)
      · next heq => exact (List.cons.inj heq).1 ▸ hd
      · next heq => cases heq
    unfold cutToken
    rw [if_neg (by simp [hquote]), if_pos hstart, ← List.cons_append, ← hds, hnumber]
  have hblank : Text.isBlank d = false := by
    have hbounds := hd
    simp only [Char.isDigit, Bool.and_eq_true, decide_eq_true_iff] at hbounds
    simp only [Text.isBlank]
    have hlow : 48 ≤ d.toNat := hbounds.1
    have hhigh : d.toNat ≤ 57 := hbounds.2
    simp
    omega
  rw [hds, List.cons_append, scan_cons hblank hcut, hds]

/-- A reserved word is cut whole. -/
theorem scan_keyword {word : List Char} {c : Char} {more : List Char} (hword : word = c :: more)
    (hstart : WordStart c) (hblank : Text.isBlank c = false)
    (hcontinues : ∀ d ∈ word, Text.continuesWord d = true) {k : Keyword}
    (hk : Keyword.ofSpelling? (String.ofList word) = some k) {rest : List Char}
    (hrest : ClosesElement rest) :
    scan (word ++ rest) = (scan rest).map (⟨[], word, .keyword k⟩ :: ·) := by
  have hcut := cutWord_of_stops hcontinues (hrest.stops rfl rfl)
  rw [hk] at hcut
  subst hword
  rw [List.cons_append, scan_cons hblank (hstart.cutToken_eq _), ← List.cons_append, hcut]

end Lexeme

end Parlance
