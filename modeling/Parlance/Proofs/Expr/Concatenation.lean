import Mathlib.Data.List.Forall2
import Parlance.Expr.Evaluate
import Parlance.Proofs.Expr.OuterTexts

/-!
# Joining texts side by side

A text outside brackets and the runs around it are joined: the text as it is, and the value of each
run as it is shown, once the plus signs that join it to the texts are taken off. The tokens that are
made for it read as one sum from left to right, whose operands are texts, so the sum itself never
fails; a failure is that of the first run that fails by itself.
-/

namespace Parlance

/-- The characters of a text, written or put in. -/
def Token.content : Token → String
  | .str s => s
  | .value (.str s) => s
  | _ => ""

theorem Token.leaf_of_isText {t : Token} (h : t.isText = true) :
    t.leaf? = some (.literal (.str t.content)) := by
  unfold Token.isText at h
  split at h <;> first | rfl | cases h

namespace Joining

open Parlance.Expr

/-! ## Plus signs at the ends of runs -/

/-- What is left of a run behind the plus sign that it starts with, if it does. -/
inductive FrontTrimmed : List Token → List Token → Prop
  | plus (rest : List Token) : FrontTrimmed (.sign .plus :: rest) rest
  | other {run : List Token} (h : ∀ rest, run ≠ .sign .plus :: rest) : FrontTrimmed run run

/-- What is left of a run in front of the plus sign that it ends with, if it does. -/
inductive BackTrimmed : List Token → List Token → Prop
  | plus (rest : List Token) : BackTrimmed (rest ++ [.sign .plus]) rest
  | other {run : List Token} (h : ∀ rest, run ≠ rest ++ [.sign .plus]) : BackTrimmed run run

/-- What is left of a run without one plus sign in front and one at the end. -/
def Trimmed (run core : List Token) : Prop :=
  ∃ rest, FrontTrimmed run rest ∧ BackTrimmed rest core

/-- The same texts stand between trimmed runs. -/
structure Split.TrimsTo (parts trimmed : Split) : Prop where
  texts : List.Forall₂ (fun part part' => Trimmed part.1 part'.1 ∧ part.2 = part'.2)
    parts.texts trimmed.texts
  last : Trimmed parts.last trimmed.last

/-- The parts with their runs trimmed. -/
def Split.trimmed (parts : Split) : Split :=
  ⟨parts.texts.map fun part => (trimPlus part.1, part.2), trimPlus parts.last⟩

theorem frontTrimmed_iff {run rest : List Token} :
    FrontTrimmed run rest ↔ rest = dropFrontPlus run := by
  constructor
  · rintro (⟨rest⟩ | h)
    · rfl
    · rw [dropFrontPlus]
      exact h
  · rintro rfl
    unfold dropFrontPlus
    split
    · exact .plus _
    · next h => exact .other h

theorem trimmed_iff {run core : List Token} : Trimmed run core ↔ core = trimPlus run := by
  constructor
  · rintro ⟨rest, front, back⟩
    rw [frontTrimmed_iff.mp front] at back
    unfold trimPlus
    dsimp only
    generalize dropFrontPlus run = rest at back ⊢
    cases back with
    | plus => rw [List.getLast?_concat, List.dropLast_concat]
    | other h =>
        split
        · next hlast =>
          obtain ⟨init, hinit⟩ := List.getLast?_eq_some_iff.mp hlast
          exact absurd hinit (h init)
        · rfl
  · rintro rfl
    refine ⟨_, frontTrimmed_iff.mpr rfl, ?_⟩
    unfold trimPlus
    dsimp only
    split
    · next hlast =>
      obtain ⟨init, hinit⟩ := List.getLast?_eq_some_iff.mp hlast
      rw [hinit, List.dropLast_concat]
      exact .plus init
    · next hlast =>
      refine .other fun init hinit => hlast ?_
      rw [hinit, List.getLast?_concat]

/-- Runs are trimmed in one way. -/
theorem trimsTo_iff (parts trimmed : Split) : parts.TrimsTo trimmed ↔ trimmed = parts.trimmed := by
  obtain ⟨texts, last⟩ := parts
  obtain ⟨texts', last'⟩ := trimmed
  have htexts : List.Forall₂ (fun part part' => Trimmed part.1 part'.1 ∧ part.2 = part'.2)
      texts texts' ↔ texts' = texts.map fun part => (trimPlus part.1, part.2) := by
    have hpart (part part' : List Token × Token) :
        (Trimmed part.1 part'.1 ∧ part.2 = part'.2) ↔ (trimPlus part.1, part.2) = part' := by
      rw [trimmed_iff, Prod.ext_iff, eq_comm]
    simp only [hpart]
    rw [@eq_comm _ texts', ← List.forall₂_eq_eq_eq, List.forall₂_map_left_iff]
  rw [Split.trimmed, Split.mk.injEq, ← htexts, ← trimmed_iff]
  exact ⟨fun h => ⟨h.texts, h.last⟩, fun h => ⟨h.1, h.2⟩⟩

/-! ## What parts say -/

/-- What a run says by itself: nothing if it is empty, and otherwise its value as it is shown. -/
def shown (run : List Token) : Eval String :=
  if run.isEmpty then return ""
  else do
    let v ← Evaluate.tokens run
    return v.display (← Eval.heap)

/-- What texts and the runs around them say, one after the other, up to the first run that fails. -/
def concatenated : List (List Token × Token) → List Token → Eval String
  | [], last => shown last
  | (run, text) :: texts, last => do
    let front ← shown run
    let rest ← concatenated texts last
    return front ++ text.content ++ rest

/-- Several texts in a row. -/
def inRow : List (Eval String) → Eval String
  | [] => return ""
  | say :: sayings => do
    let front ← say
    let rest ← inRow sayings
    return front ++ rest

theorem inRow_append (sayings more : List (Eval String)) :
    inRow (sayings ++ more) = do
      let front ← inRow sayings
      let rest ← inRow more
      return front ++ rest := by
  induction sayings with
  | nil => simp only [List.nil_append, inRow, pure_bind, String.empty_append, bind_pure]
  | cons say sayings ih =>
      simp only [List.cons_append, inRow, ih, bind_assoc, pure_bind, String.append_assoc]

/-- The value of an expression is always a text, and the one that is said. -/
def Tells (e : Expr) (say : Eval String) : Prop :=
  e.eval = do return .str (← say)

theorem tells_add {a b : Expr} {front rest : Eval String} (ha : Tells a front)
    (hb : Tells b rest) :
    Tells (.binary .add a b) (do
      let s ← front
      let t ← rest
      return s ++ t) := by
  rw [Tells] at ha hb
  simp only [Tells, Expr.eval, ha, hb, bind_assoc, pure_bind]
  rfl

theorem tells_text {t : Token} (h : t.isText = true) :
    ∃ e, Derives .term [t] e ∧ Tells e (return t.content) := by
  refine ⟨_, (Derives.leaf (Token.leaf_of_isText h)).loosen (by decide), ?_⟩
  rw [Tells, Expr.eval, pure_bind]

/-- A run in a call of `str` tells its value as it is shown. -/
theorem tells_call {run : List Token} {e : Expr} (h : Derives .or run e) :
    ∃ call, Derives .term (.name "str" :: .sign .openParen :: run ++ [.sign .closeParen]) call ∧
      Tells call (do
        let v ← e.eval
        return v.display (← Eval.heap)) := by
  have hname : Derives .access [.name "str"] (.name "str") := (Derives.leaf rfl).loosen (by decide)
  have hcall := Derives.call hname h.sequence
  refine ⟨_, hcall.loosen (by decide), ?_⟩
  have hstr : Builtin.ofName? "str" = some .str := rfl
  simp only [Tells, Expr.eval, hstr, Expr.evalAll, bind_assoc, pure_bind]
  rfl

/-- A piece reads as an operand of the sum that tells what the piece says. -/
def Says (piece : List Token) (say : Eval String) : Prop :=
  ∃ e, Derives .term piece e ∧ Tells e say

theorem joinPlus_cons (piece : List Token) (pieces : List (List Token)) :
    joinPlus (piece :: pieces) = piece ++ pieces.flatMap (.sign .plus :: ·) := by
  induction pieces generalizing piece with
  | nil => simp [joinPlus]
  | cons next pieces ih => simp [joinPlus, ih]

theorem sum_said {front : List Token} {a : Expr} {say : Eval String} {pieces : List (List Token)}
    {sayings : List (Eval String)} (hfront : Derives .sum front a) (htells : Tells a say)
    (h : List.Forall₂ Says pieces sayings) :
    ∃ e, Derives .sum (front ++ pieces.flatMap (.sign .plus :: ·)) e ∧
      Tells e (inRow (say :: sayings)) := by
  induction h generalizing front a say with
  | nil =>
      refine ⟨a, by simpa using hfront, ?_⟩
      simpa [inRow] using htells
  | @cons piece next pieces sayings hpiece _ ih =>
      obtain ⟨b, hderives, hb⟩ := hpiece
      have hsum : Derives .sum (front ++ .sign .plus :: piece) (.binary .add a b) :=
        .sum (by decide) hfront hderives
      obtain ⟨e, he, hall⟩ := ih hsum (tells_add htells hb)
      refine ⟨e, by simpa using he, ?_⟩
      simpa only [inRow, bind_assoc, pure_bind, String.append_assoc] using hall

/-- Pieces between plus signs tell what they say in a row. -/
theorem joinPlus_said {pieces : List (List Token)} {sayings : List (Eval String)}
    (hne : pieces ≠ []) (h : List.Forall₂ Says pieces sayings) :
    ∃ e, Derives .or (joinPlus pieces) e ∧ Tells e (inRow sayings) := by
  cases h with
  | nil => exact absurd rfl hne
  | cons hpiece h =>
      obtain ⟨a, hderives, ha⟩ := hpiece
      obtain ⟨e, he, htells⟩ := sum_said (hderives.loosen (by decide)) ha h
      rw [joinPlus_cons]
      exact ⟨e, he.loosen (by decide), htells⟩

/-! ## Parts -/

/-- A run that is not empty has a tree by itself. -/
def Readable (run : List Token) : Prop :=
  run ≠ [] → ∃ e, parse run = .ok e

theorem asText_said {run : List Token} (h : Readable (trimPlus run)) :
    ∃ sayings, List.Forall₂ Says (asText run) sayings ∧ inRow sayings = shown (trimPlus run) := by
  unfold asText shown
  dsimp only
  split
  · exact ⟨[], .nil, rfl⟩
  · next hne =>
    obtain ⟨e, hparse⟩ := h (by simpa using hne)
    refine ⟨_, .cons (tells_call (derives_of_parse hparse)) .nil, ?_⟩
    simp only [inRow, Evaluate.tokens, hparse, String.append_empty, pure_bind, bind_pure]

/-- The pieces that are joined in the place of texts and the runs around them. -/
def pieces (texts : List (List Token × Token)) (last : List Token) : List (List Token) :=
  (texts.flatMap fun (run, text) => asText run ++ [[text]]) ++ asText last

theorem pieces_say {texts : List (List Token × Token)} {last : List Token}
    (htexts : ∀ part ∈ texts, part.2.isText = true ∧ Readable (trimPlus part.1))
    (hlast : Readable (trimPlus last)) :
    ∃ sayings, List.Forall₂ Says (pieces texts last) sayings ∧
      inRow sayings = concatenated (Split.trimmed ⟨texts, last⟩).texts (trimPlus last) := by
  induction texts with
  | nil => exact asText_said hlast
  | cons part texts ih =>
      obtain ⟨run, text⟩ := part
      obtain ⟨⟨htext, hrun⟩, hrest⟩ := List.forall_mem_cons.mp htexts
      obtain ⟨front, hfront, hfrontSays⟩ := asText_said hrun
      obtain ⟨more, hmore, hmoreSays⟩ := ih hrest
      refine ⟨front ++ (return text.content) :: more, ?_, ?_⟩
      · have heq : pieces ((run, text) :: texts) last =
            asText run ++ [text] :: pieces texts last := by
          simp [pieces]
        rw [heq]
        exact List.rel_append hfront (.cons (tells_text htext) hmore)
      · rw [inRow_append, hfrontSays]
        simp [inRow, hmoreSays, concatenated, Split.trimmed, String.append_assoc]

theorem explicit_eq {tokens : List Token} (plain : tokens.any Token.isLogical = false)
    (hne : (split 0 tokens).texts ≠ []) :
    explicit tokens = joinPlus (pieces (split 0 tokens).texts (split 0 tokens).last) := by
  simp [explicit, plain, hne, pieces]

theorem runs_trimmed (parts : Split) : parts.trimmed.runs = parts.runs.map trimPlus := by
  simp [Split.runs, Split.trimmed, Function.comp_def]

/-- Where every run has a tree by itself, the joined tokens tell what the runs and the texts say. -/
theorem explicit_tells {tokens : List Token} (plain : tokens.any Token.isLogical = false)
    (hne : (split 0 tokens).texts ≠ [])
    (htexts : ∀ part ∈ (split 0 tokens).texts, part.2.isText = true)
    (hruns : ∀ run ∈ (split 0 tokens).trimmed.runs, Readable run) :
    ∃ e, parse (explicit tokens) = .ok e ∧
      Tells e (concatenated (split 0 tokens).trimmed.texts (split 0 tokens).trimmed.last) := by
  rw [runs_trimmed, List.forall_mem_map] at hruns
  have hparts : ∀ part ∈ (split 0 tokens).texts,
      part.2.isText = true ∧ Readable (trimPlus part.1) := fun part hpart =>
    ⟨htexts part hpart, hruns _ (List.mem_append_left _ (List.mem_map_of_mem hpart))⟩
  have hlast : Readable (trimPlus (split 0 tokens).last) := hruns _ (by simp [Split.runs])
  obtain ⟨sayings, hsayings, hrow⟩ := pieces_say hparts hlast
  have hpieces : pieces (split 0 tokens).texts (split 0 tokens).last ≠ [] := by
    obtain ⟨part, texts, heq⟩ := List.exists_cons_of_ne_nil hne
    simp [pieces, heq]
  obtain ⟨e, hderives, htells⟩ := joinPlus_said hpieces hsayings
  rw [explicit_eq plain hne]
  refine ⟨e, parse_of_derives hderives, ?_⟩
  rw [hrow] at htells
  exact htells

/-- Texts side by side evaluate to the text that is joined from them and from what stands between
them, less one plus sign at either end of each run: a failure is that of the first run that fails by
itself, and otherwise the value is a text. -/
theorem joined_texts_concatenate (tokens : List Token) (nested : Brackets.Nested tokens)
    (plain : tokens.any Token.isLogical = false)
    (outer : ∃ front text back, tokens = front ++ text :: back ∧ text.isText = true ∧
      Brackets.Nested front) :
    ∃ parts trimmed : Split, (∀ parts' : Split, parts'.Of tokens ↔ parts' = parts) ∧
      (∀ trimmed' : Split, parts.TrimsTo trimmed' ↔ trimmed' = trimmed) ∧ parts.texts ≠ [] ∧
      ((∀ run ∈ trimmed.runs, run ≠ [] → ∃ e, parse run = .ok e) →
        ∃ e, parse (explicit tokens) = .ok e ∧
          e.eval = do return .str (← concatenated trimmed.texts trimmed.last)) := by
  have hof := (split_of_iff nested (split 0 tokens)).mpr rfl
  have hne : (split 0 tokens).texts ≠ [] := by
    intro hnil
    obtain ⟨front, text, back, htokens, htext, hfront⟩ := outer
    have hlast : tokens = (split 0 tokens).last := by
      have hspelled := hof.spelled
      rwa [hnil, List.flatMap_nil, List.nil_append] at hspelled
    have hmem : (split 0 tokens).last ∈ (split 0 tokens).runs := by simp [Split.runs]
    exact hof.covered _ hmem front text back (hlast ▸ htokens) htext hfront
  exact ⟨split 0 tokens, (split 0 tokens).trimmed, split_of_iff nested, trimsTo_iff _, hne,
    explicit_tells plain hne hof.texts⟩

/-- The tokens of `+ "Score: " + (2 + 3) * 2 + "" + " of " [1, "x"] +`. -/
def scoreTokens : List Token :=
  [.sign .plus, .str "Score: ", .sign .plus, .sign .openParen, .int 2, .sign .plus, .int 3,
    .sign .closeParen, .sign .star, .int 2, .sign .plus, .str "", .sign .plus, .str " of ",
    .sign .openBracket, .int 1, .sign .comma, .str "x", .sign .closeBracket, .sign .plus]

/-- Two runs are a plus sign and no more, one has a plus sign at either end, and one at its end. The
text in the list is inside brackets and stays there. -/
theorem joined_texts_concatenate_score :
    ∃ parts trimmed : Split, parts.Of scoreTokens ∧ parts.TrimsTo trimmed ∧
      parts.runs.map List.length = [1, 9, 1, 6] ∧ trimmed.runs.map List.length = [0, 7, 0, 5] ∧
      ∃ e, parse (explicit scoreTokens) = .ok e ∧
        (e.eval {}).1 = .ok (.str "Score: 10 of [1, 'x']") := by
  obtain ⟨parts, trimmed, hparts, htrimmed, -, hjoined⟩ :=
    joined_texts_concatenate scoreTokens (by decide) (by decide)
      ⟨[.sign .plus], .str "Score: ", _, rfl, rfl, by decide⟩
  obtain rfl : split 0 scoreTokens = parts :=
    (hparts _).mp ((split_of_iff (by decide) _).mpr rfl)
  obtain rfl : (split 0 scoreTokens).trimmed = trimmed :=
    (htrimmed _).mp ((trimsTo_iff _ _).mpr rfl)
  have hruns : (split 0 scoreTokens).trimmed.runs =
      [[], (scoreTokens.take 10).drop 3, [], (scoreTokens.take 19).drop 14] := rfl
  have readable : ∀ run ∈ (split 0 scoreTokens).trimmed.runs, run ≠ [] →
      ∃ e, parse run = .ok e := by
    rw [hruns]
    simp only [List.forall_mem_cons]
    exact ⟨fun hne => absurd rfl hne, fun _ => ⟨_, rfl⟩, fun hne => absurd rfl hne,
      fun _ => ⟨_, rfl⟩, nofun⟩
  obtain ⟨e, hparse, heval⟩ := hjoined readable
  refine ⟨_, _, (hparts _).mpr rfl, (htrimmed _).mpr rfl, rfl, rfl, e, hparse, ?_⟩
  rw [heval]
  rfl

end Joining

end Parlance
