import Parlance.Proofs.Expr.Characters
import Parlance.Proofs.Statement.Layout

/-!
# Comments and literal texts

Comments are found by looking for quotes, before anything knows about tokens. A quote behind a
backslash counts for nothing there, while in a literal text the backslash in front of the closing
quote can itself be escaped. So the two agree where no literal text ends in an escaped backslash, and
behind the first one that does, a comment is not found.
-/

namespace Parlance

namespace Lexeme

/-- The quote that is taken to be open behind a lexeme: that of a literal text with a backslash in
front of its closing quote. -/
def leftOpen (l : Lexeme) : Option Char :=
  if l.text.dropLast.getLast? = some '\\' then l.text.head? else none

theorem Spell.blank {ls : List Lexeme} {text : List Char} (h : Spell ls text) :
    ∀ l ∈ ls, ∀ c ∈ l.blank, Text.isBlank c = true := by
  induction h with
  | nil _ => exact nofun
  | cons blank _ _ ih => exact List.forall_mem_cons.mpr ⟨blank, ih⟩

theorem Spell.eq_append {ls : List Lexeme} {text : List Char} (h : Spell ls text) :
    ∃ tail, (∀ c ∈ tail, Text.isBlank c = true) ∧ text = ls.flatMap chars ++ tail := by
  induction h with
  | @nil tail blank => exact ⟨tail, blank, rfl⟩
  | cons _ _ _ ih =>
      obtain ⟨tail, blank, rfl⟩ := ih
      exact ⟨tail, blank, by simp [chars]⟩

end Lexeme

namespace Line

/-- Whether a character neither starts a comment nor has to do with quotes. -/
def isPlain (c : Char) : Bool :=
  c != '"' && c != '\'' && c != '#' && c != '\\'

/-- Of the character in front, only a backslash matters. -/
theorem stripCommentFrom_previous (quote : Option Char) {previous : Option Char}
    (h : previous ≠ some '\\') (text : List Char) :
    stripCommentFrom quote previous text = stripCommentFrom quote none text := by
  cases text with
  | nil => rfl
  | cons c rest => simp [stripCommentFrom, h]

theorem stripCommentFrom_plain {run : List Char} (hrun : ∀ c ∈ run, isPlain c = true)
    (rest : List Char) :
    stripCommentFrom none none (run ++ rest) = run ++ stripCommentFrom none none rest := by
  induction run with
  | nil => rfl
  | cons c run ih =>
      have hc : isPlain c = true := hrun c List.mem_cons_self
      simp only [isPlain, Bool.and_eq_true, bne_iff_ne, ne_eq] at hc
      obtain ⟨⟨⟨hdouble, hsingle⟩, hsign⟩, hslash⟩ := hc
      have hstep : stripCommentFrom none none (c :: (run ++ rest)) =
          c :: stripCommentFrom none (some c) (run ++ rest) := by
        simp [stripCommentFrom, hdouble, hsingle, hsign]
      have hprevious : some c ≠ some '\\' := by simpa using hslash
      have hmore := ih fun d hd => hrun d (List.mem_cons_of_mem c hd)
      rw [List.cons_append, hstep, stripCommentFrom_previous none hprevious, hmore,
        List.cons_append]

/-! ## Literal texts -/

theorem getLast?_dropLast_cons {a b : Char} {more : List Char} (h : more ≠ []) :
    (a :: b :: more).dropLast.getLast? = (b :: more).dropLast.getLast? := by
  obtain ⟨c, more, rfl⟩ := List.exists_cons_of_ne_nil h
  simp [List.getLast?_cons_cons]

/-- Inside a literal text nothing is a comment, and its last quote is seen to close it unless a
backslash stands in front of it. -/
theorem stripCommentFrom_closes {quote : Char} (hquote : Lexeme.isQuote quote = true)
    {content spelling : List Char} (h : Lexeme.Closes quote content spelling) (previous : Char)
    (rest : List Char) :
    stripCommentFrom (some quote) (some previous) (spelling ++ rest) =
      spelling ++ stripCommentFrom
        (if (previous :: spelling).dropLast.getLast? = some '\\' then some quote else none) none
        rest := by
  have hbehind : some quote ≠ some '\\' := by
    rintro ⟨⟩
    cases hquote
  unfold Lexeme.isQuote at hquote
  induction h generalizing previous with
  | close =>
      by_cases hprevious : previous = '\\'
      · simp [stripCommentFrom, hprevious, stripCommentFrom_previous _ hbehind]
      · simp [stripCommentFrom, hprevious, hquote, toggleQuote,
          stripCommentFrom_previous _ hbehind]
  | escape c more ih =>
      rw [getLast?_dropLast_cons (List.cons_ne_nil _ _), getLast?_dropLast_cons more.ne_nil,
        List.cons_append, List.cons_append, List.cons_append, List.cons_append, ← ih c]
      simp [stripCommentFrom]
  | @plain c content spelling not_slash not_quote more ih =>
      have htoggle : toggleQuote c (some quote) = some quote := by
        simp [toggleQuote, Ne.symm not_quote]
      rw [getLast?_dropLast_cons more.ne_nil, List.cons_append, List.cons_append, ← ih c]
      simp [stripCommentFrom, htoggle]

/-! ## Lexemes -/

theorem isPlain_of_isBlank {c : Char} (h : Text.isBlank c = true) : isPlain c = true := by
  by_contra hplain
  simp only [isPlain, Bool.and_eq_true, bne_iff_ne, not_and_or, not_not] at hplain
  rcases hplain with ((rfl | rfl) | rfl) | rfl <;> cases h

/-- Only literal texts hold quotes, number signs and backslashes. -/
theorem isPlain_of_writtenAs {t : Token} {spelling : List Char} (h : t.WrittenAs spelling) :
    (∀ c ∈ spelling, isPlain c = true) ∨ ∃ quote content closing, spelling = quote :: closing ∧
      Lexeme.isQuote quote = true ∧ Lexeme.Closes quote content closing := by
  have special {c : Char} (hc : isPlain c = false) : c = '"' ∨ c = '\'' ∨ c = '#' ∨ c = '\\' := by
    simp only [isPlain, Bool.and_eq_false_iff, bne_eq_false_iff_eq] at hc
    rcases hc with ((hc | hc) | hc) | hc <;> simp [hc]
  have letters {c : Char} (hc : Text.continuesWord c = true) : isPlain c = true := by
    by_contra hplain
    rcases special (by simpa using hplain) with rfl | rfl | rfl | rfl <;> revert hc <;> decide
  cases h with
  | text quoted closes => exact .inr ⟨_, _, _, rfl, quoted, closes⟩
  | number isWhole numerals =>
      refine .inl fun c hc => ?_
      have hnumeral := numerals c hc
      by_contra hplain
      rcases special (by simpa using hplain) with rfl | rfl | rfl | rfl <;> revert hnumeral <;> decide
  | keyword word reserved => exact .inl fun c hc => letters (word c hc)
  | name word => exact .inl fun c hc => letters (word c hc)
  | sign s =>
      refine .inl (List.all_eq_true.mp ?_)
      cases s <;> decide

theorem getLast?_dropLast_of_plain {run : List Char} (hrun : ∀ c ∈ run, isPlain c = true) :
    run.dropLast.getLast? ≠ some '\\' := by
  intro hlast
  have hplain := hrun '\\' (List.dropLast_subset run (List.mem_of_getLast? hlast))
  cases hplain

/-- A lexeme is kept whole; behind it, a quote may be left open. -/
theorem stripCommentFrom_lexeme {l : Lexeme} (hblank : ∀ c ∈ l.blank, Text.isBlank c = true)
    (hwritten : l.token.WrittenAs l.text) (rest : List Char) :
    stripCommentFrom none none (l.blank ++ (l.text ++ rest)) =
      l.blank ++ (l.text ++ stripCommentFrom l.leftOpen none rest) := by
  have hfront (more : List Char) : stripCommentFrom none none (l.blank ++ more) =
      l.blank ++ stripCommentFrom none none more :=
    stripCommentFrom_plain (fun c hc => isPlain_of_isBlank (hblank c hc)) more
  rw [hfront]
  congr 1
  rcases isPlain_of_writtenAs hwritten with hplain | ⟨quote, content, closing, htext, hquote, hcloses⟩
  · have hclosed : l.leftOpen = none := if_neg (getLast?_dropLast_of_plain hplain)
    rw [hclosed, stripCommentFrom_plain hplain]
  · have hopen : stripCommentFrom none none (quote :: (closing ++ rest)) =
        quote :: stripCommentFrom (some quote) (some quote) (closing ++ rest) := by
      unfold Lexeme.isQuote at hquote
      simp [stripCommentFrom, hquote, toggleQuote]
    rw [Lexeme.leftOpen, htext, List.cons_append, hopen, stripCommentFrom_closes hquote hcloses]
    rfl

/-- Lexemes that leave no quote open are kept whole. -/
theorem stripCommentFrom_lexemes {ls : List Lexeme}
    (hblank : ∀ l ∈ ls, ∀ c ∈ l.blank, Text.isBlank c = true)
    (hwritten : ∀ l ∈ ls, l.token.WrittenAs l.text) (hclosed : ∀ l ∈ ls, l.leftOpen = none)
    (rest : List Char) :
    stripCommentFrom none none (ls.flatMap Lexeme.chars ++ rest) =
      ls.flatMap Lexeme.chars ++ stripCommentFrom none none rest := by
  induction ls with
  | nil => rfl
  | cons l ls ih =>
      rw [List.forall_mem_cons] at hblank hwritten hclosed
      have htail := ih hblank.2 hwritten.2 hclosed.2
      have hhead := stripCommentFrom_lexeme hblank.1 hwritten.1 (ls.flatMap Lexeme.chars ++ rest)
      rw [hclosed.1, htail] at hhead
      simpa [Lexeme.chars] using hhead

/-- Behind a lexeme that leaves a quote open, a comment stays. -/
theorem stripCommentFrom_leftOpen {l : Lexeme} (hblank : ∀ c ∈ l.blank, Text.isBlank c = true)
    (hwritten : l.token.WrittenAs l.text) (hopen : l.leftOpen ≠ none) (comment : List Char) :
    stripCommentFrom none none (l.chars ++ " # ".toList ++ comment) ≠ l.chars ++ [' '] := by
  obtain ⟨quote, hquote⟩ := Option.ne_none_iff_exists'.mp hopen
  have hstrip := stripCommentFrom_lexeme hblank hwritten (" # ".toList ++ comment)
  have hstays : stripCommentFrom (some quote) none (" # ".toList ++ comment) =
      ' ' :: '#' :: stripCommentFrom (some quote) (some '#') (' ' :: comment) := by
    simp [stripCommentFrom]
  rw [hquote, hstays] at hstrip
  intro hcut
  rw [Lexeme.chars, List.append_assoc, List.append_assoc, hstrip] at hcut
  simp at hcut

/-- The first lexeme that leaves a quote open hides the comment behind it. -/
theorem exists_hidden_comment {ls : List Lexeme}
    (hblank : ∀ l ∈ ls, ∀ c ∈ l.blank, Text.isBlank c = true)
    (hwritten : ∀ l ∈ ls, l.token.WrittenAs l.text) (hopen : ∃ l ∈ ls, l.leftOpen ≠ none) :
    ∃ front, front <+: ls ∧ ∀ comment,
      stripComment (front.flatMap Lexeme.chars ++ " # ".toList ++ comment) ≠
        front.flatMap Lexeme.chars ++ [' '] := by
  induction ls with
  | nil => simp at hopen
  | cons l ls ih =>
      rw [List.forall_mem_cons] at hblank hwritten
      by_cases hl : l.leftOpen = none
      · have hmore : ∃ l ∈ ls, l.leftOpen ≠ none := by simpa [hl] using hopen
        obtain ⟨front, hfront, hhidden⟩ := ih hblank.2 hwritten.2 hmore
        refine ⟨l :: front, List.cons_prefix_cons.mpr ⟨rfl, hfront⟩, fun comment hcut => ?_⟩
        have hstrip := stripCommentFrom_lexeme hblank.1 hwritten.1
          (front.flatMap Lexeme.chars ++ " # ".toList ++ comment)
        rw [hl] at hstrip
        refine hhidden comment ?_
        rw [stripComment, List.flatMap_cons, Lexeme.chars] at hcut
        simp only [List.append_assoc] at hcut hstrip
        rw [hstrip] at hcut
        simpa [stripComment] using hcut
      · refine ⟨[l], by simp, fun comment => ?_⟩
        have hstays := stripCommentFrom_leftOpen hblank.1 hwritten.1 hl comment
        simpa [stripComment] using hstays

/-! ## Lines -/

/-- A line without its indentation loses the same comment. -/
theorem stripComment_body {text rest kept : List Char}
    (h : stripComment (text ++ rest) = text ++ kept) :
    stripComment (text.dropWhile isIndent ++ rest) = text.dropWhile isIndent ++ kept := by
  have hindent : ∀ c ∈ text.takeWhile isIndent, isPlain c = true := fun c hc =>
    isPlain_of_isBlank (isBlank_of_isIndent (List.all_eq_true.mp List.all_takeWhile c hc))
  have hsplit : text.takeWhile isIndent ++ text.dropWhile isIndent = text :=
    List.takeWhile_append_dropWhile
  have hfront := stripCommentFrom_plain hindent (text.dropWhile isIndent ++ rest)
  have hwhole : text.takeWhile isIndent ++ stripComment (text.dropWhile isIndent ++ rest) =
      text.takeWhile isIndent ++ (text.dropWhile isIndent ++ kept) := by
    rw [stripComment, ← hfront, ← List.append_assoc, ← List.append_assoc, hsplit]
    exact h
  exact List.append_cancel_left hwhole

theorem stripComment_uncommented {text : List Char} (h : stripComment text = text) :
    stripComment (text.dropWhile isIndent) = text.dropWhile isIndent := by
  have hbody := @stripComment_body text [] [] (by simpa using h)
  simpa using hbody

/-- Where a comment is found behind a text, the line is the one without it. -/
theorem ofSource?_comment {text comment : List Char} (hkept : stripComment text = text)
    (hcut : stripComment (text ++ " # ".toList ++ comment) = text ++ [' ']) (number : Nat) :
    ofSource? number (text ++ " # ".toList ++ comment) = ofSource? number text := by
  rw [List.append_assoc] at hcut ⊢
  cases hbody : text.dropWhile isIndent with
  | nil =>
      have hblank : text.dropWhile Text.isBlank = [] := by
        rw [← dropWhile_isBlank_dropWhile_isIndent, hbody]
        rfl
      have hidle : isIdle text = true := by simp [isIdle, hblank]
      have hidle' : isIdle (text ++ (" # ".toList ++ comment)) = true := by
        simp [isIdle, List.dropWhile_append, hblank, Text.isBlank]
      rw [ofSource?_idle hidle, ofSource?_idle hidle']
  | cons c more =>
      have htext := stripComment_uncommented hkept
      have hstripped := stripComment_body hcut
      have hdrop : (text ++ (" # ".toList ++ comment)).dropWhile isIndent =
          text.dropWhile isIndent ++ (" # ".toList ++ comment) := by
        rw [List.dropWhile_append, hbody]
        rfl
      have htake : (text ++ (" # ".toList ++ comment)).takeWhile isIndent =
          text.takeWhile isIndent := by
        have hlength : (text.takeWhile isIndent ++ text.dropWhile isIndent).length = text.length :=
          congrArg List.length List.takeWhile_append_dropWhile
        rw [hbody, List.length_append, List.length_cons] at hlength
        rw [List.takeWhile_append, if_neg (by omega)]
      have htrim : Text.trim (stripComment (text.dropWhile isIndent ++ (" # ".toList ++ comment))) =
          Text.trim (stripComment (text.dropWhile isIndent)) := by
        rw [hstripped, htext, Text.trim_append_blank rfl]
      simp only [ofSource?, hdrop, htake, htrim]

theorem text_of_ofSource? {text : List Char} (hkept : stripComment text = text) {number : Nat}
    {line : Line} (h : ofSource? number text = some line) : line.text = Text.trim text := by
  have hbody := stripComment_uncommented hkept
  have htrim : Text.trim (text.dropWhile isIndent) = Text.trim text := by
    rw [Text.trim, Text.trimStart, dropWhile_isBlank_dropWhile_isIndent]
    rfl
  simp only [ofSource?, hbody, htrim] at h
  split at h
  · cases h
  · cases h
    rfl

/-- Comments are found behind the tokens of a text, and only there, as long as no literal text is
closed right behind a backslash; and if they are found behind each of its tokens, none is. -/
theorem comments_start_outside_literals {text : List Char} {ls : List Lexeme}
    (h : Lexeme.scan text = .ok ls) :
    ((∀ l ∈ ls, l.leftOpen = none) →
      stripComment text = text ∧
      (∀ comment, stripComment (text ++ " # ".toList ++ comment) = text ++ [' ']) ∧
      (∀ number comment,
        ofSource? number (text ++ " # ".toList ++ comment) = ofSource? number text) ∧
      ∀ number line, ofSource? number text = some line → line.text = Text.trim text) ∧
    ((∀ front, front <+: ls → ∀ comment,
        stripComment (front.flatMap Lexeme.chars ++ " # ".toList ++ comment) =
          front.flatMap Lexeme.chars ++ [' ']) ↔
      ∀ l ∈ ls, l.leftOpen = none) := by
  have hwritten := Lexeme.scan_writtenAs h
  have hblank := (Lexeme.scan_spell h).blank
  obtain ⟨tail, htail, rfl⟩ := (Lexeme.scan_spell h).eq_append
  have hmark (comment : List Char) : stripCommentFrom none none (" # ".toList ++ comment) = [' '] := by
    simp [stripCommentFrom]
  constructor
  · intro hclosed
    have hstrip (rest : List Char) : stripComment (ls.flatMap Lexeme.chars ++ tail ++ rest) =
        ls.flatMap Lexeme.chars ++ tail ++ stripCommentFrom none none rest := by
      rw [List.append_assoc, List.append_assoc, stripComment,
        stripCommentFrom_lexemes hblank hwritten hclosed,
        stripCommentFrom_plain fun c hc => isPlain_of_isBlank (htail c hc)]
    have hkept := hstrip []
    rw [List.append_nil, stripCommentFrom, List.append_nil] at hkept
    have hcut (comment : List Char) := hstrip (" # ".toList ++ comment)
    simp only [hmark, ← List.append_assoc] at hcut
    exact ⟨hkept, hcut, fun number comment => ofSource?_comment hkept (hcut comment) number,
      fun number line => text_of_ofSource? hkept⟩
  · constructor
    · intro hfound
      by_contra hopen
      obtain ⟨front, hfront, hhidden⟩ :=
        exists_hidden_comment hblank hwritten (by simpa using hopen)
      exact hhidden [] (hfound front hfront [])
    · intro hclosed front hfront comment
      rw [List.append_assoc, stripComment, stripCommentFrom_lexemes
        (fun l hl => hblank l (hfront.subset hl)) (fun l hl => hwritten l (hfront.subset hl))
        (fun l hl => hclosed l (hfront.subset hl)), hmark]

/-- A number sign stands in each of two literal texts, and one of them holds an escaped backslash. -/
theorem comments_start_outside_literals_tagged :
    let text := "'#' + \"\\\\ #\"".toList
    let ls : List Lexeme := [⟨[], "'#'".toList, .str "#"⟩, ⟨[' '], ['+'], .sign .plus⟩,
      ⟨[' '], "\"\\\\ #\"".toList, .str "\\ #"⟩]
    Lexeme.scan text = .ok ls ∧ (∀ l ∈ ls, l.leftOpen = none) ∧
      stripComment text = text ∧ stripComment (text ++ " # done".toList) = text ++ [' '] := by
  intro text ls
  have hscan : Lexeme.scan text = .ok ls := by rfl
  have hclosed : ∀ l ∈ ls, l.leftOpen = none := by decide
  obtain ⟨hkept, hcut, -⟩ := (comments_start_outside_literals hscan).1 hclosed
  exact ⟨hscan, hclosed, hkept, hcut "done".toList⟩

/-- A literal text that ends in an escaped backslash leaves a comment attached, and lets one start
inside the next literal text. -/
theorem comment_stays_behind_backslash :
    let path := "\"C:\\\\\"".toList
    let text := path ++ " \"#1\"".toList
    (∃ ls, Lexeme.scan path = .ok ls) ∧ (∃ ls, Lexeme.scan text = .ok ls) ∧
      stripComment (path ++ " # note".toList) = path ++ " # note".toList ∧
      stripComment text = path ++ " \"".toList := by
  intro path text
  exact ⟨⟨_, rfl⟩, ⟨_, rfl⟩, by decide, by decide⟩

end Line

end Parlance
