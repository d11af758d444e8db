import Parlance.Proofs.Expr.Blanks
import Parlance.Proofs.Expr.Concatenation
import Parlance.Proofs.Expr.Sharing

/-!
# Brackets in accepted texts

Tokens that are read as they stand have nested brackets. Where texts side by side are joined, each
run is put into parentheses of its own, without regard to its brackets. A run in front of a text
still has to be nested, since the split counts brackets too; the run behind the last text may close
the parenthesis that was put around it and open another one.
-/

namespace Parlance

namespace Joining

open Brackets

/-! ## Pieces -/

theorem after_dropFrontPlus (awaited : List Sign) (run : List Token) :
    after awaited (dropFrontPlus run) = after awaited run := by
  unfold dropFrontPlus
  split
  · exact (after_neither rfl).symm
  · rfl

/-- The plus signs that are taken off a run are no brackets. -/
theorem after_trimPlus (awaited : List Sign) (run : List Token) :
    after awaited (trimPlus run) = after awaited run := by
  rw [← after_dropFrontPlus awaited run]
  unfold trimPlus
  dsimp only
  split
  · next hlast =>
    obtain ⟨front, hfront⟩ := List.getLast?_eq_some_iff.mp hlast
    rw [hfront, List.dropLast_concat, after_append]
    cases after awaited front <;> rfl
  · rfl

theorem after_plusses (awaited : List Sign) (pieces : List (List Token)) :
    after awaited (pieces.flatMap (.sign .plus :: ·)) = after awaited pieces.flatten := by
  induction pieces generalizing awaited with
  | nil => rfl
  | cons piece pieces ih =>
      rw [List.flatMap_cons, List.cons_append, after_neither rfl, List.flatten_cons, after_append,
        after_append]
      exact congrArg _ (funext ih)

theorem after_joinPlus (awaited : List Sign) (pieces : List (List Token)) :
    after awaited (joinPlus pieces) = after awaited pieces.flatten := by
  cases pieces with
  | nil => rfl
  | cons piece pieces =>
      rw [joinPlus_cons, List.flatten_cons, after_append, after_append]
      exact congrArg _ (funext fun middle => after_plusses middle pieces)

/-- A run of which something is left stands in parentheses of its own. -/
theorem after_asText {run : List Token} (h : trimPlus run ≠ []) (awaited : List Sign)
    (ts : List Token) :
    after awaited ((asText run).flatten ++ ts) =
      (after (.closeParen :: awaited) run).bind fun middle =>
        after middle (.sign .closeParen :: ts) := by
  unfold asText
  dsimp only
  rw [if_neg (by simpa using h), List.flatten_singleton, List.cons_append, List.cons_append,
    List.cons_append, List.cons_append, after_neither rfl, after_opens rfl, List.append_assoc,
    after_append, after_trimPlus]
  rfl

theorem nested_of_trimPlus {run : List Token} (h : trimPlus run = []) : Nested run := by
  rw [Nested, ← after_trimPlus, h]
  rfl

theorem asText_of_trimPlus {run : List Token} (h : trimPlus run = []) : asText run = [] := by
  simp [asText, h]

/-- A run in front of a text is nested: where it closes the parenthesis around it, the next one has
nothing to close. -/
theorem nested_of_piece {run ts : List Token} (hdepth : depth 0 run = 0)
    (h : Nested ((asText run).flatten ++ ts)) : Nested run ∧ Nested ts := by
  by_cases htrim : trimPlus run = []
  · rw [asText_of_trimPlus htrim] at h
    exact ⟨nested_of_trimPlus htrim, h⟩
  · rw [Nested, after_asText htrim, ← List.nil_append [Sign.closeParen]] at h
    obtain ⟨middle, hrun, hrest⟩ := Option.bind_eq_some_iff.mp h
    rcases after_cases hrun with ⟨inner, hinner, rfl⟩ | ⟨front, t, back, rfl, ht, hfront, hback⟩
    · have hnested : Nested run := nested_of_depth hinner hdepth
      rw [Nested, hinner] at hnested
      cases hnested
      exact ⟨hinner, (after_closes rfl).symm.trans hrest⟩
    · obtain rfl := eq_closeParen ht
      have hmiddle : depth 0 back = 0 := by
        have hzero : depth 0 front = 0 := depth_of_nested hfront
        rwa [depth_append, hzero, depth_cons] at hdepth
      have hnested : Nested back := nested_of_depth hback hmiddle
      rw [Nested, hback] at hnested
      cases hnested
      rw [after_closes_nil rfl] at hrest
      cases hrest

/-- Tokens that close a parenthesis which they did not open, and open another one. -/
def Reopens (ts : List Token) : Prop :=
  ∃ front middle back, ts =
    front ++ .sign .closeParen :: (middle ++ .sign .openParen :: back) ∧
    Nested front ∧ Nested middle ∧ Nested back

/-- The last run is nested, or it closes the parenthesis around it and opens another one. -/
theorem nested_of_last {run : List Token} (h : Nested (asText run).flatten) :
    Nested run ∨ Reopens run := by
  by_cases htrim : trimPlus run = []
  · exact .inl (nested_of_trimPlus htrim)
  · rw [← List.append_nil (asText run).flatten, Nested, after_asText htrim] at h
    obtain ⟨middle, hrun, hclose⟩ := Option.bind_eq_some_iff.mp h
    obtain ⟨middle, rfl⟩ : ∃ rest, middle = .closeParen :: rest := by
      cases middle with
      | nil =>
          rw [after_closes_nil rfl] at hclose
          cases hclose
      | cons next middle =>
          obtain ⟨rfl, -⟩ := eq_of_after_closes rfl hclose
          exact ⟨middle, rfl⟩
    rw [after_closes rfl] at hclose
    cases hclose
    rw [← List.nil_append [Sign.closeParen]] at hrun
    rcases after_cases hrun with ⟨inner, hinner, heq⟩ | ⟨front, t, back, rfl, ht, hfront, hback⟩
    · obtain rfl : inner = [] := List.append_cancel_right (heq.symm.trans (List.nil_append _).symm)
      exact .inl hinner
    · obtain ⟨between, opening, rest, rfl, hopening, hbetween, hrest⟩ := exists_open hback
      obtain rfl := eq_closeParen ht
      obtain rfl := eq_openParen hopening
      exact .inr ⟨front, between, rest, rfl, hfront, hbetween, hrest⟩

/-- What the runs are like where the tokens that are made of them are nested. -/
theorem Splits.nested_or_reopens {d : Nat} {ts last : List Token} {texts : List (List Token × Token)}
    (h : Splits d ts texts last) (hd : d = 0) (hnested : Nested (pieces texts last).flatten) :
    (∀ part ∈ texts, Nested part.1) ∧ (Nested last ∨ Reopens last) := by
  induction h with
  | last covered => exact ⟨nofun, nested_of_last hnested⟩
  | @text d run ts last t texts covered outside htext _ ih =>
      subst hd
      have hpieces : (pieces ((run, t) :: texts) last).flatten =
          (asText run).flatten ++ t :: (pieces texts last).flatten := by
        simp [pieces]
      rw [hpieces] at hnested
      obtain ⟨hrun, hrest⟩ := nested_of_piece outside hnested
      rw [Nested.cons_iff (bracket_of_isText htext)] at hrest
      obtain ⟨hruns, hlast⟩ := ih rfl hrest
      exact ⟨List.forall_mem_cons.mpr ⟨hrun, hruns⟩, hlast⟩

/-- Tokens without a logical one that, behind a text outside brackets, close a parenthesis which is
not open, and open another one. -/
def BreaksOut (ts : List Token) : Prop :=
  ts.any Token.isLogical = false ∧ ∃ front text last, ts = front ++ text :: last ∧
    text.isText = true ∧ Nested front ∧ Reopens last

theorem BreaksOut.not_nested {ts : List Token} (h : BreaksOut ts) : ¬ Nested ts := by
  obtain ⟨-, front, text, last, rfl, htext, hfront, inner, middle, back, rfl, hinner, -, -⟩ := h
  intro hnested
  have hlast := (Nested.cons_iff (bracket_of_isText htext)).mp (hnested.of_append_left hfront)
  exact hinner.not_closes rfl hlast

/-- Tokens from which a tree is read after texts side by side are joined. -/
theorem nested_or_breaksOut {ts : List Token} {e : Expr} (h : Expr.parse (explicit ts) = .ok e) :
    Nested ts ∨ BreaksOut ts := by
  have hnested : Nested (explicit ts) := (Expr.derives_of_parse h).nested
  unfold explicit at hnested
  dsimp only at hnested
  split at hnested
  · exact .inl hnested
  · next hplain =>
    split at hnested
    · exact .inl hnested
    · next hne =>
      rw [Nested, after_joinPlus] at hnested
      have hsplits := splits_split 0 ts
      obtain ⟨hruns, hlast⟩ := hsplits.nested_or_reopens rfl hnested
      obtain ⟨hspelled, htexts⟩ := hsplits.spelled
      rcases hlast with hlast | hreopens
      · rw [hspelled]
        exact .inl ((nested_texts hruns htexts).append hlast)
      · right
        refine ⟨by simpa using hplain, ?_⟩
        generalize (split 0 ts).texts = texts at hne hruns hspelled htexts
        rcases List.eq_nil_or_concat texts with rfl | ⟨init, ⟨run, text⟩, rfl⟩
        · exact absurd rfl hne
        · rw [List.concat_eq_append] at hspelled hruns htexts
          simp only [List.forall_mem_append, List.forall_mem_singleton] at hruns htexts
          refine ⟨init.flatMap (fun part => part.1 ++ [part.2]) ++ run, text, (split 0 ts).last, ?_,
            htexts.2, (nested_texts hruns.1 htexts.1).append hruns.2, hreopens⟩
          simpa using hspelled

end Joining

/-! ## Texts without names in scope -/

namespace Evaluate

theorem parse_of_tokens {ts : List Token} {store store' : Store} {v : Value}
    (h : tokens ts store = (.ok v, store')) : ∃ e, Expr.parse ts = .ok e := by
  unfold tokens at h
  cases hparse : Expr.parse ts with
  | error fault =>
      rw [hparse] at h
      cases h
  | ok e => exact ⟨e, rfl⟩

/-- Where no name is bound, a text that is not taken as it stands has the value of its tokens with
texts side by side joined. -/
theorem tokens_of_lexedWith {evaluateIndex : List Char → Eval Value} {text : List Char}
    {ls : List Lexeme} {store store' : Store} {v : Value}
    (h : lexedWith .empty evaluateIndex text ls store = (.ok v, store')) :
    tokens (Joining.explicit (ls.map Lexeme.token)) store = (.ok v, store') := by
  unfold lexedWith at h
  cases hname : singleName? .empty ls with
  | some n =>
      rw [hname] at h
      cases h
  | none =>
      rw [hname] at h
      cases hindexed : indexed? ls with
      | some parts =>
          rw [hindexed] at h
          cases h
      | none =>
          rw [hindexed] at h
          exact h

theorem unresolved_of_asWritten {text : List Char} {store store' : Store} {v : Value}
    (h : asWritten? text store = (.ok (some v), store')) :
    unresolved text store = (.ok v, store') := by
  unfold asWritten? at h
  split at h
  · rw [success?, Eval.tryCatch_run, Eval.bind_run] at h
    rcases hrun : unresolved text store with ⟨outcome, middle⟩
    rw [hrun] at h
    cases outcome <;> cases h
    rfl
  · cases h

/-- A text that has a value where no name is bound can be read as it stands or with texts side by side
joined. -/
theorem reads_of_text {source : String} {store store' : Store} {v : Value}
    (h : text .empty source store = (.ok v, store')) :
    ∃ ts, Token.scan (Text.trim source.toList) = .ok ts ∧
      ((∃ e, Expr.parse ts = .ok e) ∨ ∃ e, Expr.parse (Joining.explicit ts) = .ok e) := by
  obtain ⟨written, middle, hwritten, hrest⟩ := Eval.bind_eq_ok.mp h
  cases written with
  | some w =>
      obtain ⟨ls, _, hls, htokens⟩ := Eval.bind_eq_ok.mp (unresolved_of_asWritten hwritten)
      have hscan := tokens_of_scan (scan_of_lexemes (Eval.lift_eq_ok.mp hls).1)
      exact ⟨_, hscan, .inl (parse_of_tokens htokens)⟩
  | none =>
      obtain ⟨ls, _, hls, hlexed⟩ := Eval.bind_eq_ok.mp hrest
      have hscan := tokens_of_scan (scan_of_lexemes (Eval.lift_eq_ok.mp hls).1)
      exact ⟨_, hscan, .inr (parse_of_tokens (tokens_of_lexedWith hlexed))⟩

/-- A text that has a value where no name is bound can be cut into tokens, and their brackets are
nested unless what stands behind a text breaks out of the parentheses that are put around it. -/
theorem accepted_brackets_nest (source : String) (store : Store) (v : Value)
    (h : (text .empty source store).1 = .ok v) :
    ∃ ts, Token.scan source.toList = .ok ts ∧
      (Brackets.Nested ts ↔ ¬ Joining.BreaksOut ts) := by
  have hrun : text .empty source store = (.ok v, (text .empty source store).2) := Prod.ext h rfl
  obtain ⟨ts, hscan, hreads⟩ := reads_of_text hrun
  refine ⟨ts, Token.scan_of_trim hscan, fun hnested hbreaks => hbreaks.not_nested hnested, ?_⟩
  intro hbreaks
  rcases hreads with ⟨e, hparse⟩ | ⟨e, hparse⟩
  · exact (Expr.derives_of_parse hparse).nested
  · exact (Joining.nested_or_breaksOut hparse).resolve_right hbreaks

theorem exists_shown {outcome : Except Error Value} {heap : Heap} {shown : String}
    (h : outcome.toOption.map (Value.display heap) = some shown) :
    ∃ v, outcome = .ok v ∧ v.display heap = shown := by
  cases outcome with
  | error e => cases h
  | ok v => exact ⟨v, rfl, Option.some.inj h⟩

theorem accepted_brackets_nest_call :
    ∃ v, (text .empty " \"n: \" len([1, (2)]) " {}).1 = .ok v ∧ v.display {} = "n: 2" ∧
      ∃ ts, Token.scan " \"n: \" len([1, (2)]) ".toList = .ok ts ∧
        (Brackets.Nested ts ↔ ¬ Joining.BreaksOut ts) := by
  obtain ⟨v, hvalue, hshown⟩ :=
    @exists_shown (text .empty " \"n: \" len([1, (2)]) " {}).1 {} "n: 2" (by decide +kernel)
  exact ⟨v, hvalue, hshown, accepted_brackets_nest _ _ _ hvalue⟩

/-- A text with a value whose brackets are not nested. -/
theorem accepted_brackets_reopen :
    ∃ v ts, (text .empty "\"a\") + (\"b\"" {}).1 = .ok v ∧ v.display {} = "ab" ∧
      Token.scan "\"a\") + (\"b\"".toList = .ok ts ∧ ¬ Brackets.Nested ts := by
  obtain ⟨v, hvalue, hshown⟩ :=
    @exists_shown (text .empty "\"a\") + (\"b\"" {}).1 {} "ab" (by decide +kernel)
  have hscan : Token.scan "\"a\") + (\"b\"".toList =
      .ok [.str "a", .sign .closeParen, .sign .plus, .sign .openParen, .str "b"] := rfl
  exact ⟨v, _, hvalue, hshown, hscan, by decide⟩

end Evaluate

end Parlance
