import Parlance.Proofs.Expr.Acceptance
import Parlance.Proofs.Expr.Regrouping

/-!
# Bracketed texts as they stand

A text between square brackets is evaluated as it stands, without joining texts side by side. Where
both ways have a value, they have the same one: what stands between two texts is then a sum of texts,
and joining only groups its operands in another way. A bracket directly behind a text is the
exception: it is an index for the one way and a list of its own for the other.
-/

namespace Parlance

namespace Joining

open Brackets Parlance.Expr

/-! ## Runs -/

theorem trimPlus_concat (run : List Token) :
    trimPlus (run ++ [.sign .plus]) = dropFrontPlus run := by
  cases run with
  | nil => rfl
  | cons t run =>
      by_cases ht : t = .sign .plus
      · subst ht
        simp [trimPlus, dropFrontPlus]
      · have hkept (more : List Token) : dropFrontPlus (t :: more) = t :: more := by
          rw [dropFrontPlus]
          rintro _ ⟨⟩
          exact ht rfl
        simp only [trimPlus, List.cons_append, hkept]
        rw [← List.cons_append, List.getLast?_concat, List.dropLast_concat]

theorem eq_of_dropFrontPlus {run : List Token} (h : dropFrontPlus run = []) :
    run = [] ∨ run = [.sign .plus] := by
  unfold dropFrontPlus at h
  split at h
  · exact .inr (by rw [h])
  · exact .inl h

/-- The last token stays. -/
theorem exists_dropFrontPlus (run : List Token) {t : Token} (ht : t ≠ .sign .plus) :
    ∃ rest, dropFrontPlus (run ++ [t]) = rest ++ [t] := by
  unfold dropFrontPlus
  split
  · next rest heq =>
    cases run with
    | nil => exact absurd (List.cons.inj heq).1 ht
    | cons first run => exact ⟨run, (List.cons.inj heq).2.symm⟩
  · exact ⟨run, rfl⟩

theorem trimPlus_of_last {run : List Token} {t : Token} (ht : t ≠ .sign .plus) :
    trimPlus (run ++ [t]) = dropFrontPlus (run ++ [t]) := by
  obtain ⟨rest, hrest⟩ := exists_dropFrontPlus run ht
  unfold trimPlus
  dsimp only
  rw [hrest, List.getLast?_concat]
  split
  · next heq => exact absurd (Option.some.inj heq) ht
  · rfl

theorem shown_nil : shown [] = pure "" :=
  rfl

theorem shown_of_derives {run : List Token} {e : Expr} (h : Derives .sum run e) :
    shown run = do
      let v ← e.eval
      return v.display (← Eval.heap) := by
  have hne : ¬ run.isEmpty = true := by
    rw [List.isEmpty_iff]
    intro hnil
    exact absurd h.length_pos (by rw [hnil]; decide)
  have hparse : parse run = .ok e := parse_of_derives (h.loosen (by decide))
  rw [shown, if_neg hne, Evaluate.tokens, hparse]

/-! ## Behind a text -/

/-- No bracket stands directly behind a text outside brackets. -/
def Unindexed (ts : List Token) : Prop :=
  ∀ front t back, ts = front ++ t :: .sign .openBracket :: back → t.isText = true → ¬ Nested front

/-- Enough for it that no text has a bracket directly behind it. -/
theorem unindexed_of_isChain {ts : List Token}
    (h : ts.IsChain fun t u => u.isSign .openBracket = true → t.isText = false) :
    Unindexed ts := by
  rintro front t back rfl ht
  have hchain := (List.isChain_append.mp h).2.1
  have hfalse := (List.isChain_cons.mp hchain).1 _ rfl rfl
  rw [ht] at hfalse
  cases hfalse

/-- Tokens up to a text: they are a sum that says something, and nothing with a parenthesis behind. -/
structure Head (ts : List Token) (say : Eval String) : Prop where
  text : ∃ front t, ts = front ++ [t] ∧ t.isText = true
  sum : ∃ a, Derives .sum ts a ∧ Agrees a say
  call : ∀ {us : List Token} {e : Expr}, Derives .sum (.sign .openParen :: us) e →
    ∃ whole, Derives .sum (ts ++ .sign .openParen :: us) whole ∧ Fails whole

namespace Head

variable {front ts us : List Token} {t : Token} {a e : Expr} {say : Eval String}

/-- A text behind a sum. -/
theorem plus (hfront : Derives .sum front a) (ht : t.isText = true)
    (hsum : Agrees (.binary .add a (.literal (.str t.content))) say) :
    Head (front ++ [.sign .plus, t]) say where
  text := ⟨front ++ [.sign .plus], t, by simp, ht⟩
  sum := by
    have hleaf : Derives .term [t] (.literal (.str t.content)) :=
      (Derives.leaf (Token.leaf_of_isText ht)).loosen (by decide)
    exact ⟨_, .sum (by decide) hfront hleaf, hsum⟩
  call h := (uncallable_text (Token.leaf_of_isText ht)).sum hfront h rfl

/-- A text behind a sum and a sign: there is no value. -/
theorem plusPlus (hfront : Derives .sum front a) (ht : t.isText = true) :
    Head (front ++ [.sign .plus, .sign .plus, t]) say where
  text := ⟨front ++ [.sign .plus, .sign .plus], t, by simp, ht⟩
  sum := by
    have hleaf : Derives .signed [t] (.literal (.str t.content)) :=
      (Derives.leaf (Token.leaf_of_isText ht)).loosen (by decide)
    have hsigned : Derives .term [.sign .plus, t] (.unary .plus (.literal (.str t.content))) :=
      .tighter rfl (.signed (by decide) hleaf)
    have hfails : Fails (.unary .plus (.literal (.str t.content))) := by
      intro store store' v heval
      rw [eval, eval, pure_bind] at heval
      exact Value.plus_of_str heval
    exact ⟨.binary .add a _, .sum (by decide) hfront hsigned, hfails.right.agrees⟩
  call h := (uncallable_plus (Token.leaf_of_isText ht)).sum hfront h rfl

/-- What can stand directly behind a text. -/
theorem first (h : Head ts say) (apart : Apart (ts ++ us)) (unindexed : Unindexed (ts ++ us)) :
    ∀ u ∈ us.head?, u.leaf? = none ∧ u ≠ .sign .openBracket := by
  intro u hu
  obtain ⟨us, rfl⟩ : ∃ more, us = u :: more := by
    cases us with
    | nil => cases hu
    | cons first more =>
        cases hu
        exact ⟨more, rfl⟩
  obtain ⟨a, hderives, -⟩ := h.sum
  obtain ⟨front, t, rfl, ht⟩ := h.text
  constructor
  · refine (List.isChain_append.mp apart).2.2 t (by simp) u rfl ?_
    exact Token.endsOperand_of_leaf (Token.leaf_of_isText ht)
  · rintro rfl
    refine unindexed front t us (by simp) ht ?_
    obtain ⟨awaited, hafter, hlast⟩ := exists_after_of_append hderives.nested
    rw [after_neither (bracket_of_isText ht)] at hlast
    cases hlast
    exact hafter

/-- A run behind a text. -/
theorem run (h : Head ts say) (hfirst : ∀ u ∈ us.head?, u.leaf? = none ∧ u ≠ .sign .openBracket)
    (hus : Derives .sum (dropFrontPlus us) e) :
    ∃ whole, Derives .sum (ts ++ us) whole ∧
      Agrees whole (do
        let s ← say
        let v ← e.eval
        return s ++ v.display (← Eval.heap)) := by
  obtain ⟨a, ha, hsay⟩ := h.sum
  unfold dropFrontPlus at hus
  split at hus
  · exact agrees_regroup ha hsay hus
  · next hplus =>
    obtain ⟨u, more, rfl, hopens⟩ := hus.opens
    obtain ⟨hleaf, hbracket⟩ := hfirst u rfl
    cases u with
    | sign s =>
        cases s with
        | plus => exact absurd rfl (hplus more)
        | minus =>
            obtain ⟨whole, hwhole, hfails⟩ := fails_minus ha hsay hus rfl
            exact ⟨whole, hwhole, hfails.agrees⟩
        | openParen =>
            obtain ⟨whole, hwhole, hfails⟩ := h.call hus
            exact ⟨whole, hwhole, hfails.agrees⟩
        | openBracket => exact absurd rfl hbracket
        | _ => cases hopens
    | keyword k =>
        cases k with
        | yes => cases hleaf
        | no => cases hleaf
        | nothing => cases hleaf
        | _ => cases hopens
    | _ => cases hleaf

/-- A run in front of a text that is not empty ends with a plus sign. -/
theorem exists_plus {run back : List Token} {t : Token} (hne : run ≠ [])
    (readable : trimPlus run ≠ [] → ∃ e, Derives .sum (trimPlus run) e)
    (apart : Apart (run ++ t :: back)) (ht : t.isText = true) :
    ∃ rest, run = rest ++ [.sign .plus] := by
  rcases List.eq_nil_or_concat run with rfl | ⟨rest, u, rfl⟩
  · exact absurd rfl hne
  · rw [List.concat_eq_append] at *
    refine ⟨rest, ?_⟩
    by_contra hplus
    have hu : u ≠ .sign .plus := by
      rintro rfl
      exact hplus rfl
    obtain ⟨more, hmore⟩ := exists_dropFrontPlus rest hu
    rw [trimPlus_of_last hu, hmore] at readable
    obtain ⟨e, he⟩ := readable (by simp)
    obtain ⟨front', u', heq, hends⟩ := he.ends
    obtain ⟨-, hlast⟩ := List.append_inj' heq rfl
    obtain ⟨rfl, -⟩ := List.cons.inj hlast
    have hleaf := (List.isChain_append.mp apart).2.2 u (by simp) t rfl hends
    rw [Token.leaf_of_isText ht] at hleaf
    cases hleaf

/-- From one text to the next. -/
theorem step {run back : List Token} (h : Head ts say) (apart : Apart (ts ++ (run ++ t :: back)))
    (unindexed : Unindexed (ts ++ (run ++ t :: back))) (ht : t.isText = true)
    (readable : trimPlus run ≠ [] → ∃ e, Derives .sum (trimPlus run) e) :
    Head (ts ++ (run ++ [t])) (do
      let s ← say
      let r ← shown (trimPlus run)
      return s ++ (r ++ t.content)) := by
  have hfirst := h.first apart unindexed
  have hne : run ≠ [] := by
    rintro rfl
    have hleaf := (hfirst t rfl).1
    rw [Token.leaf_of_isText ht] at hleaf
    cases hleaf
  obtain ⟨rest, rfl⟩ := exists_plus hne readable (List.isChain_append.mp apart).2.1 ht
  rw [trimPlus_concat] at readable
  by_cases hrest : dropFrontPlus rest = []
  · obtain ⟨a, ha, hsay⟩ := h.sum
    rw [trimPlus_concat, hrest]
    simp only [shown_nil, pure_bind, String.empty_append]
    rcases eq_of_dropFrontPlus hrest with rfl | rfl
    · exact .plus ha ht (hsay.add t.content)
    · exact .plusPlus ha ht
  · obtain ⟨e, he⟩ := readable hrest
    have hrestFirst : ∀ u ∈ rest.head?, u.leaf? = none ∧ u ≠ .sign .openBracket := by
      intro u hu
      refine hfirst u ?_
      cases rest with
      | nil => cases hu
      | cons first rest => exact hu
    obtain ⟨whole, hwhole, hsay⟩ := h.run hrestFirst he
    have hhead := plus hwhole ht (hsay.add t.content)
    rw [trimPlus_concat]
    simp only [shown_of_derives he, bind_assoc, pure_bind, String.append_assoc] at hhead ⊢
    simpa using hhead

/-- From a text to the end. -/
theorem all {d : Nat} {texts : List (List Token × Token)} {last : List Token} {tree : Expr}
    (splits : Splits d us texts last) (hd : d = 0) (h : Head ts say)
    (whole : Derives .or (ts ++ us) tree) (unindexed : Unindexed (ts ++ us))
    (readable : ∀ run ∈ Split.runs ⟨texts, last⟩, trimPlus run ≠ [] →
      ∃ e, Derives .sum (trimPlus run) e) :
    ∃ e, Derives .sum (ts ++ us) e ∧
      Agrees e (do
        let s ← say
        let rest ← concatenated (Split.trimmed ⟨texts, last⟩).texts (trimPlus last)
        return s ++ rest) := by
  induction splits generalizing ts say with
  | @last d run covered =>
      rcases List.eq_nil_or_concat run with rfl | ⟨rest, u, rfl⟩
      · obtain ⟨a, ha, hsay⟩ := h.sum
        have hnothing : concatenated (Split.trimmed ⟨[], []⟩).texts (trimPlus []) = pure "" := rfl
        refine ⟨a, by rwa [List.append_nil], ?_⟩
        simpa only [hnothing, pure_bind, String.append_empty, bind_pure] using hsay
      · rw [List.concat_eq_append] at *
        have hu : u ≠ .sign .plus := by
          obtain ⟨front, u', heq, hends⟩ := whole.ends
          rw [← List.append_assoc] at heq
          obtain ⟨-, hlast⟩ := List.append_inj' heq rfl
          obtain ⟨rfl, -⟩ := List.cons.inj hlast
          rintro rfl
          cases hends
        obtain ⟨more, hmore⟩ := exists_dropFrontPlus rest hu
        have htrim : trimPlus (rest ++ [u]) = more ++ [u] := (trimPlus_of_last hu).trans hmore
        obtain ⟨e, he⟩ := readable _ (List.mem_singleton_self _) (by simp [htrim])
        rw [Split.trimmed, List.map_nil, concatenated, shown_of_derives he]
        rw [htrim, ← hmore] at he
        simpa only [bind_assoc, pure_bind] using h.run (h.first whole.apart unindexed) he
  | @text d run us last t texts covered outside ht _ ih =>
      subst hd
      have hrun : run ∈ Split.runs ⟨(run, t) :: texts, last⟩ := List.mem_cons_self
      have hnext := h.step whole.apart unindexed ht (readable run hrun)
      have happend : ts ++ (run ++ t :: us) = ts ++ (run ++ [t]) ++ us := by simp
      rw [happend] at whole unindexed ⊢
      obtain ⟨e, he, hagrees⟩ := ih rfl hnext whole unindexed fun other hother =>
        readable other (List.mem_cons_of_mem _ hother)
      refine ⟨e, he, ?_⟩
      simpa only [Split.trimmed, List.map_cons, concatenated, bind_assoc, pure_bind,
        String.append_assoc] using hagrees

/-- The first text, behind a run that starts with a bracket. -/
theorem start {run : List Token} (hfirst : (run ++ t :: us).head? = some (.sign .openBracket))
    (apart : Apart (run ++ t :: us)) (ht : t.isText = true)
    (readable : trimPlus run ≠ [] → ∃ e, Derives .sum (trimPlus run) e) :
    Head (run ++ [t]) (do
      let r ← shown (trimPlus run)
      return r ++ t.content) := by
  cases run with
  | nil =>
      obtain rfl := Option.some.inj hfirst
      cases ht
  | cons first run =>
      obtain rfl := Option.some.inj hfirst
      obtain ⟨rest, hrest⟩ := exists_plus (List.cons_ne_nil _ _) readable apart ht
      obtain ⟨rest, rfl⟩ : ∃ more, rest = .sign .openBracket :: more := by
        cases rest with
        | nil => cases hrest
        | cons other rest => exact ⟨rest, by rw [(List.cons.inj hrest).1]⟩
      rw [hrest] at readable ⊢
      rw [trimPlus_concat] at readable
      obtain ⟨e, he⟩ := readable (List.cons_ne_nil _ _)
      change Derives .sum (.sign .openBracket :: rest) e at he
      have hhead := plus he ht (agrees_add e t.content)
      have hrun : trimPlus (.sign .openBracket :: rest ++ [.sign .plus]) = .sign .openBracket :: rest :=
        trimPlus_concat _
      simp only [hrun, shown_of_derives he, bind_assoc, pure_bind]
      simpa using hhead

end Head

/-! ## Runs that are read -/

theorem trimPlus_place (run : List Token) :
    ∃ front back, run = front ++ (trimPlus run ++ back) ∧ Nested front := by
  have hfront : ∃ front, run = front ++ dropFrontPlus run ∧ Nested front := by
    unfold dropFrontPlus
    split
    · exact ⟨[.sign .plus], rfl, rfl⟩
    · exact ⟨[], rfl, rfl⟩
  obtain ⟨front, hrun, hnested⟩ := hfront
  unfold trimPlus
  dsimp only
  split
  · next hlast =>
    obtain ⟨rest, hrest⟩ := List.getLast?_eq_some_iff.mp hlast
    refine ⟨front, [.sign .plus], ?_, hnested⟩
    rw [hrest, List.dropLast_concat, ← hrest]
    exact hrun
  · exact ⟨front, [], by rwa [List.append_nil], hnested⟩

theorem exists_joinPlus {pieces : List (List Token)} {piece : List Token} (h : piece ∈ pieces) :
    ∃ front back, joinPlus pieces = front ++ (piece ++ back) := by
  cases pieces with
  | nil => cases h
  | cons first pieces =>
      rw [joinPlus_cons]
      rcases List.mem_cons.mp h with rfl | h
      · exact ⟨[], _, rfl⟩
      · obtain ⟨init, rest, rfl⟩ := List.append_of_mem h
        refine ⟨first ++ (init.flatMap (.sign .plus :: ·) ++ [.sign .plus]),
          rest.flatMap (.sign .plus :: ·), ?_⟩
        simp

theorem mem_pieces {texts : List (List Token × Token)} {last run : List Token}
    (hrun : run ∈ Split.runs ⟨texts, last⟩) (hne : trimPlus run ≠ []) :
    .name "str" :: .sign .openParen :: trimPlus run ++ [.sign .closeParen] ∈ pieces texts last := by
  have hpiece : asText run = [.name "str" :: .sign .openParen :: trimPlus run ++
      [.sign .closeParen]] := by
    simp [asText, hne]
  rcases List.mem_append.mp hrun with hrun | hrun
  · obtain ⟨part, hpart, rfl⟩ := List.mem_map.mp hrun
    refine List.mem_append_left _ (List.mem_flatMap.mpr ⟨part, hpart, ?_⟩)
    dsimp only
    rw [hpiece]
    exact List.mem_cons_self
  · obtain rfl := List.mem_singleton.mp hrun
    refine List.mem_append_right _ ?_
    rw [hpiece]
    exact List.mem_cons_self

/-- Where the joined tokens have a tree, so has every run that is left. -/
theorem readable_of_explicit {ts : List Token} {tree e : Expr} (whole : Derives .or ts tree)
    (plain : ts.any Token.isLogical = false) (hne : (split 0 ts).texts ≠ [])
    (h : parse (explicit ts) = .ok e) :
    ∀ run ∈ (split 0 ts).runs, trimPlus run ≠ [] → ∃ e, Derives .sum (trimPlus run) e := by
  intro run hrun htrim
  have hof := (split_of_iff whole.nested (split 0 ts)).mpr rfl
  have hnested : Nested (trimPlus run) := (after_trimPlus [] run).trans (hof.nested run hrun)
  obtain ⟨front, back, hts, hfront⟩ := hof.place hrun
  obtain ⟨front', back', hrun', hfront'⟩ := trimPlus_place run
  have hplace : ts = (front ++ front') ++ (trimPlus run ++ (back' ++ back)) :=
    calc
      ts = front ++ (run ++ back) := hts
      _ = front ++ (front' ++ (trimPlus run ++ back') ++ back) := by rw [← hrun']
      _ = (front ++ front') ++ (trimPlus run ++ (back' ++ back)) := by simp only [List.append_assoc]
  have huncut : Uncut (trimPlus run) :=
    ((hplace ▸ whole.uncut).of_append_right (hfront.append hfront')).of_append_left
  have hplain : (trimPlus run).any Token.isLogical = false := by
    rw [hplace] at plain
    simp only [List.any_append, Bool.or_eq_false_iff] at plain
    exact plain.2.1
  obtain ⟨before, behind, hpiece⟩ := exists_joinPlus (mem_pieces hrun htrim)
  rw [explicit_eq plain hne] at h
  have hgroup : joinPlus (pieces (split 0 ts).texts (split 0 ts).last) =
      (before ++ [.name "str"]) ++ .sign .openParen :: (trimPlus run ++ .sign .closeParen :: behind) := by
    rw [hpiece]
    simp
  obtain ⟨args, hargs⟩ := (derives_of_parse h).grouped.groups hgroup rfl hnested rfl
  obtain ⟨e, he⟩ := hargs.single htrim huncut
  exact ⟨e, he.sum_of_plain hplain⟩

/-! ## Both ways -/

/-- What a bracketed text is as it stands agrees with what it says after joining. -/
theorem agrees_of_explicit {ts : List Token} {tree e : Expr} (htree : parse ts = .ok tree)
    (h : parse (explicit ts) = .ok e) (plain : ts.any Token.isLogical = false)
    (hne : (split 0 ts).texts ≠ []) (hfirst : ts.head? = some (.sign .openBracket))
    (unindexed : Unindexed ts) :
    Agrees tree (concatenated (split 0 ts).trimmed.texts (split 0 ts).trimmed.last) := by
  have whole := derives_of_parse htree
  have readable := readable_of_explicit whole plain hne h
  have hsplits := splits_split 0 ts
  generalize split 0 ts = parts at *
  obtain ⟨texts, last⟩ := parts
  dsimp only at hsplits hne ⊢
  cases hsplits with
  | last _ => exact absurd rfl hne
  | @text _ run us _ t texts covered outside ht more =>
      have hhead := Head.start hfirst whole.apart ht (readable run List.mem_cons_self)
      have happend : run ++ t :: us = (run ++ [t]) ++ us := by simp
      rw [happend] at whole unindexed htree
      obtain ⟨e', he', hagrees⟩ := hhead.all more rfl whole unindexed fun other hother =>
        readable other (List.mem_cons_of_mem _ hother)
      obtain rfl : tree = e' := by
        have hparse := parse_of_derives (he'.loosen (by decide))
        exact Except.ok.inj (htree.symm.trans hparse)
      simpa only [Split.trimmed, List.map_cons, concatenated, bind_assoc, pure_bind] using hagrees

end Joining

namespace Evaluate

open Eval

/-- The general way to evaluate a text where no name is bound. -/
def generally (text : List Char) : Eval Value := do
  let ls ← lexemes text
  resolved .empty [] ls

theorem first_of_bracketed {text : List Char} {ts : List Token} (h : looksBracketed text = true)
    (hscan : Token.scan text = .ok ts) : ts.head? = some (.sign .openBracket) := by
  rw [looksBracketed, Bool.and_eq_true, beq_iff_eq] at h
  cases text with
  | nil => cases h.1
  | cons c rest =>
      obtain rfl : c = '[' := Option.some.inj h.1
      have hcut : Lexeme.cutToken '[' rest = .ok ⟨.sign .openBracket, ['['], rest⟩ := rfl
      rw [Token.scan_of_scan (Lexeme.scan_cons rfl hcut)] at hscan
      cases hrest : Token.scan rest with
      | error fault =>
          rw [hrest] at hscan
          cases hscan
      | ok more =>
          rw [hrest] at hscan
          cases hscan
          rfl

theorem tokens_of_parse {ts : List Token} {e : Expr} (h : Expr.parse ts = .ok e) :
    tokens ts = e.eval := by
  rw [tokens, h]

/-- The two ways to evaluate tokens. -/
theorem tokens_agree {ts : List Token} (hfirst : ts.head? = some (.sign .openBracket))
    (unindexed : ts.any Token.isLogical = false → Joining.Unindexed ts) {store stored stored' : Store}
    {v w : Value} (hv : tokens ts store = (.ok v, stored))
    (hw : tokens (Joining.explicit ts) store = (.ok w, stored')) : v = w ∧ stored = stored' := by
  by_cases hjoined : ts.any Token.isLogical = false ∧ (Joining.split 0 ts).texts ≠ []
  · obtain ⟨plain, hne⟩ := hjoined
    obtain ⟨tree, htree⟩ := parse_of_tokens hv
    obtain ⟨e, he⟩ := parse_of_tokens hw
    have whole := Expr.derives_of_parse htree
    have htexts := ((Joining.split_of_iff whole.nested _).mpr rfl).texts
    obtain ⟨joined, hjoined, htells⟩ :=
      Joining.explicit_tells plain hne htexts <| by
        rw [Joining.runs_trimmed, List.forall_mem_map]
        intro run hrun htrim
        obtain ⟨part, hpart⟩ := Joining.readable_of_explicit whole plain hne he run hrun htrim
        exact ⟨part, Expr.parse_of_derives (hpart.loosen (by decide))⟩
    rw [tokens_of_parse htree] at hv
    rw [tokens_of_parse hjoined, htells] at hw
    obtain ⟨s, rfl, hsaid⟩ :=
      Joining.agrees_of_explicit htree he plain hne hfirst (unindexed plain) _ _ _ hv
    obtain ⟨t, middle, hsaid', hpure⟩ := bind_eq_ok.mp hw
    rw [hsaid] at hsaid'
    cases hsaid'
    cases hpure
    exact ⟨rfl, rfl⟩
  · have hsame : Joining.explicit ts = ts := by
      rw [not_and_or] at hjoined
      rcases hjoined with hlogical | hnone
      · simp [Joining.explicit, hlogical]
      · simp [Joining.explicit, hnone]
    rw [hsame, hv] at hw
    cases hw
    exact ⟨rfl, rfl⟩

/-- Where a bracketed text has a value as it stands and in the general way, both are the same, made in
the same way, unless texts side by side are joined and a bracket stands directly behind one of
them. -/
theorem bracketed_texts_keep_their_value (text : List Char) (bracketed : looksBracketed text = true)
    (unindexed : ∀ ts, Token.scan text = .ok ts → ts.any Token.isLogical = false →
      Joining.Unindexed ts)
    (store stored stored' : Store) (v w : Value) (hv : unresolved text store = (.ok v, stored))
    (hw : generally text store = (.ok w, stored')) : v = w ∧ stored = stored' := by
  obtain ⟨ls, _, hlift, hstands⟩ := bind_eq_ok.mp hv
  obtain ⟨ls', _, hlift', hjoined⟩ := bind_eq_ok.mp hw
  obtain ⟨hls, rfl⟩ := lift_eq_ok.mp hlift
  obtain ⟨hls', rfl⟩ := lift_eq_ok.mp hlift'
  rw [hls] at hls'
  cases hls'
  have hscan := tokens_of_scan (scan_of_lexemes hls)
  exact tokens_agree (first_of_bracketed bracketed hscan) (unindexed _ hscan) hstands hjoined

theorem exists_run {act : Eval Value} {shown : String}
    (h : (act {}).1.toOption.map (Value.display {}) = some shown) :
    ∃ v stored, act {} = (.ok v, stored) ∧ v.display {} = shown := by
  obtain ⟨v, hvalue, hshown⟩ := exists_shown h
  exact ⟨v, _, Prod.ext hvalue rfl, hshown⟩

/-- The operands are grouped in another way, and all of them are texts. -/
theorem bracketed_texts_keep_their_value_words :
    ∃ v stored, unresolved "[\"a\"][0] + \"b\" + [\"c\"][0]".toList {} = (.ok v, stored) ∧
      generally "[\"a\"][0] + \"b\" + [\"c\"][0]".toList {} = (.ok v, stored) ∧
      v.display {} = "abc" := by
  obtain ⟨v, stored, hv, hshown⟩ :=
    @exists_run (unresolved "[\"a\"][0] + \"b\" + [\"c\"][0]".toList) "abc" (by decide +kernel)
  obtain ⟨w, stored', hw, -⟩ :=
    @exists_run (generally "[\"a\"][0] + \"b\" + [\"c\"][0]".toList) "abc" (by decide +kernel)
  obtain ⟨rfl, rfl⟩ := bracketed_texts_keep_their_value _ rfl (fun ts hscan _ => by
    cases hscan
    exact Joining.unindexed_of_isChain (by decide)) {} _ _ _ _ hv hw
  exact ⟨v, stored, hv, hw, hshown⟩

/-- A bracket behind a text is an index for the one way and a list for the other. -/
theorem bracketed_text_changes_its_value :
    ∃ v w stored stored', unresolved "[\"a\"][0] + \"b\"[0]".toList {} = (.ok v, stored) ∧
      generally "[\"a\"][0] + \"b\"[0]".toList {} = (.ok w, stored') ∧
      v.display {} = "ab" ∧ w.display {} = "ab[0]" := by
  obtain ⟨v, stored, hv, hshown⟩ :=
    @exists_run (unresolved "[\"a\"][0] + \"b\"[0]".toList) "ab" (by decide +kernel)
  obtain ⟨w, stored', hw, hshown'⟩ :=
    @exists_run (generally "[\"a\"][0] + \"b\"[0]".toList) "ab[0]" (by decide +kernel)
  exact ⟨v, w, stored, stored', hv, hw, hshown, hshown'⟩

end Evaluate

end Parlance
