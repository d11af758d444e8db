import Parlance.Proofs.Expr.Alone
import Parlance.Proofs.Expr.Sharing
import Parlance.Proofs.Value.Blame

/-!
# Undefined names are not bound

A name that stays behind when all names in scope have been replaced is not in scope: it is a phrase
of one word, and the one pass over the tokens that belongs to it leaves no occurrence. The name that
joining texts puts in is that of a built-in function and never blamed.
-/

namespace Parlance

open Eval

variable {may : String → Prop}

/-! ## Built-in functions -/

namespace Builtin

theorem blameless_number (b : Builtin) (v : Value) : Blameless (b.number v) := by
  intro n
  unfold number
  split <;> exact nofun

theorem blameless_integer (b : Builtin) (v : Value) : Blameless (b.integer v) := by
  intro n
  unfold integer
  split <;> exact nofun

theorem blameless_wholeValue (f : Float) : Blameless (wholeValue f) := by
  intro n
  unfold wholeValue
  split <;> exact nofun

theorem blameless_callSqrt (args : List Value) : Blameless (callSqrt args) := by
  unfold callSqrt
  split
  · refine (blameless_number _ _).bind fun x => ?_
    dsimp only
    split
    · exact fun n => nofun
    · exact .ok _
  · exact fun n => nofun

theorem blameless_callPow (args : List Value) : Blameless (callPow args) := by
  unfold callPow
  split
  · refine (blameless_number _ _).bind fun base => (blameless_number _ _).bind fun exponent => ?_
    dsimp only
    split
    · exact fun n => nofun
    · exact .ok _
  · exact fun n => nofun

theorem blameless_callAbs (args : List Value) : Blameless (callAbs args) := by
  intro n
  unfold callAbs
  split
  · split <;> exact nofun
  · exact nofun

theorem blameless_callRound (args : List Value) : Blameless (callRound args) := by
  unfold callRound
  split
  · split
    · exact .ok _
    · exact blameless_wholeValue _
    · exact fun n => nofun
  · refine (blameless_integer _ _).bind fun places => ?_
    dsimp only
    split
    · exact .ok _
    · refine (blameless_number _ _).bind fun value => ?_
      split <;> exact .ok _
  · exact fun n => nofun

theorem blameless_callWhole (b : Builtin) (rule : Float → Float) (args : List Value) :
    Blameless (callWhole b rule args) := by
  unfold callWhole
  split
  · exact (blameless_number _ _).bind fun _ => blameless_wholeValue _
  · exact fun n => nofun

theorem blamesNone_callRandom (args : List Value) : BlamesNone (callRandom args) := by
  cases args with
  | nil => exact (BlamesNone.draw _).bind fun _ => .pure _
  | cons _ _ => exact .throw nofun

theorem blamesNone_callRandint (args : List Value) : BlamesNone (callRandint args) := by
  unfold callRandint
  split
  · refine BlamesNone.bind (.lift (blameless_integer _ _)) fun low => ?_
    refine BlamesNone.bind (.lift (blameless_integer _ _)) fun high => ?_
    exact .failIf ((BlamesNone.draw _).bind fun _ => .pure _) fun n => nofun
  · exact .throw nofun

theorem blameless_extremeFrom (heap : Heap) (symbol : String) (wanted : Ordering) (best : Value)
    (rest : List Value) : Blameless (extremeFrom heap symbol wanted best rest) := by
  induction rest generalizing best with
  | nil => exact .ok _
  | cons candidate rest ih =>
      have horder := Value.blameless_orderFuel heap symbol
        (heap.lists.size * heap.lists.size + 1) [] candidate best
      exact horder.bind fun _ => ih _

theorem blameless_callExtreme (b : Builtin) (symbol : String) (wanted : Ordering) (heap : Heap)
    (args : List Value) : Blameless (callExtreme b symbol wanted heap args) := by
  unfold callExtreme
  split
  · exact fun n => nofun
  · exact blameless_extremeFrom _ _ _ _ _

theorem blamesNone_sumFrom (start sequence : Value) : BlamesNone (sumFrom start sequence) := by
  cases sequence with
  | list cell =>
      refine .failIf (BlamesNone.heap.bind fun heap => ?_) fun n => nofun
      exact Blames.foldlM _ (fun v _ sum _ => Value.blamesNone_add sum v) trivial
  | _ => exact .throw fun n => nofun

theorem blamesNone_callSum (args : List Value) : BlamesNone (callSum args) := by
  unfold callSum
  split
  · exact blamesNone_sumFrom _ _
  · exact blamesNone_sumFrom _ _
  · exact .throw nofun

theorem blameless_callLen (heap : Heap) (args : List Value) : Blameless (callLen heap args) := by
  intro n
  unfold callLen
  split <;> exact nofun

theorem blameless_callStr (heap : Heap) (args : List Value) : Blameless (callStr heap args) := by
  intro n
  unfold callStr
  split <;> exact nofun

theorem blamesNone_callList (args : List Value) : BlamesNone (callList args) := by
  refine BlamesNone.heap.bind fun heap => ?_
  split
  · exact .newList _
  · exact .newList _
  · exact .newList _
  · exact .newList _
  · exact .throw fun n => nofun
  · exact .throw nofun

theorem blamesNone_call (b : Builtin) (args : List Value) : BlamesNone (b.call args) := by
  cases b with
  | sqrt => exact .lift (blameless_callSqrt args)
  | pow => exact .lift (blameless_callPow args)
  | abs => exact .lift (blameless_callAbs args)
  | round => exact .lift (blameless_callRound args)
  | floor => exact .lift (blameless_callWhole _ _ args)
  | ceil => exact .lift (blameless_callWhole _ _ args)
  | random => exact blamesNone_callRandom args
  | randint => exact blamesNone_callRandint args
  | min => exact BlamesNone.heap.bind fun heap => .lift (blameless_callExtreme _ _ _ heap args)
  | max => exact BlamesNone.heap.bind fun heap => .lift (blameless_callExtreme _ _ _ heap args)
  | sum => exact blamesNone_callSum args
  | len => exact BlamesNone.heap.bind fun heap => .lift (blameless_callLen heap args)
  | str => exact BlamesNone.heap.bind fun heap => .lift (blameless_callStr heap args)
  | list => exact blamesNone_callList args

end Builtin

/-! ## Trees -/

/-- A token that, if it is a name, may be blamed or belongs to a built-in function. -/
def Token.MayBlame (may : String → Prop) (t : Token) : Prop :=
  ∀ n, t = .name n → may n ∨ (Builtin.ofName? n).isSome = true

/-- A leaf that, if it is a name, may be blamed or belongs to a built-in function. -/
def Expr.MayBlame (may : String → Prop) (e : Expr) : Prop :=
  (∃ v, e = .literal v) ∨ ∃ n, e = .name n ∧ (may n ∨ (Builtin.ofName? n).isSome = true)

namespace Expr

theorem mayBlame_of_token {t : Token} {e : Expr} (ht : t.MayBlame may) (h : t.leaf? = some e) :
    e.MayBlame may := by
  unfold Token.leaf? at h
  split at h <;> cases h
  all_goals first
    | exact .inl ⟨_, rfl⟩
    | exact .inr ⟨_, rfl, ht _ rfl⟩

/-- Every token is exchanged for itself, to see what the leaves of a tree are. -/
theorem exchanges_mayBlame : Exchanges (fun t t' => t' = t ∧ t.MayBlame may)
    (fun e _ => e.MayBlame may) :=
  ⟨fun h _ => h.1, fun h hleaf => ⟨_, h.1 ▸ hleaf, mayBlame_of_token h.2 hleaf⟩⟩

theorem blames_leaf {e : Expr} (h : e.MayBlame may) : Blames may e.eval fun _ => True := by
  rcases h with ⟨v, rfl⟩ | ⟨n, rfl, hn⟩
  · exact .pure trivial
  · refine .throw fun m hm => ?_
    split at hm
    · cases hm
    · next hbuiltin =>
      cases hm
      exact hn.resolve_right hbuiltin

theorem blames_call {callee : Expr} {args : List Expr}
    (hcallee : Blames may callee.eval fun _ => True)
    (hargs : Blames may (evalAll args) fun _ => True) :
    Blames may (Expr.call callee args).eval fun _ => True := by
  rw [eval.eq_def]
  dsimp only
  split
  · next n =>
    split
    · exact hargs.bind fun values _ => (Builtin.blamesNone_call _ values).weaken
    · next hbuiltin =>
      -- What would be blamed for the name alone is blamed for its call.
      refine .throw fun m hm => (hcallee default).1 m ?_
      cases hm
      simp only [eval, hbuiltin, Option.isSome_none]
      rfl
  · exact hcallee.bind fun _ _ => .throw fun _ h => by cases h

mutual

theorem blames_eval : ∀ {e e' : Expr}, Alike (fun e _ => e.MayBlame may) e e' →
    Blames may e.eval fun _ => True
  | _, _, .leaf h => blames_leaf h
  | _, _, .list items => (blames_evalAll items).bind fun _ _ => (BlamesNone.newList _).weaken
  | _, _, .unary op operand => (blames_eval operand).bind fun v _ => (v.blamesNone_unary op).weaken
  | _, _, .binary op left right =>
    (blames_eval left).bind fun l _ => (blames_eval right).bind fun r _ =>
      (Value.blamesNone_binary op l r).weaken
  | _, _, .compare first links => (blames_eval first).bind fun v _ => blames_evalLinks v links
  | _, _, .and left right =>
    (blames_eval left).bind fun _ _ => Blames.heap.bind fun _ _ =>
      .ite (blames_eval right) (.pure trivial)
  | _, _, .or left right =>
    (blames_eval left).bind fun _ _ => Blames.heap.bind fun _ _ =>
      .ite (.pure trivial) (blames_eval right)
  | _, _, .index target place =>
    (blames_eval target).bind fun t _ => (blames_eval place).bind fun i _ =>
      Blames.heap.bind fun heap _ => (BlamesNone.lift (Value.blameless_index heap t i)).weaken
  | _, _, .call callee args => blames_call (blames_eval callee) (blames_evalAll args)

theorem blames_evalAll : ∀ {es es' : List Expr}, AllAlike (fun e _ => e.MayBlame may) es es' →
    Blames may (evalAll es) fun _ => True
  | _, _, .nil => .pure trivial
  | _, _, .cons head tail =>
    (blames_eval head).bind fun _ _ => (blames_evalAll tail).bind fun _ _ => .pure trivial

theorem blames_evalLinks (left : Value) : ∀ {links links' : List Link},
    LinksAlike (fun e _ => e.MayBlame may) links links' →
      Blames may (evalLinks left links) fun _ => True
  | _, _, .nil => .pure trivial
  | _, _, .cons op operand tail =>
    (blames_eval operand).bind fun right _ => Blames.heap.bind fun heap _ =>
      (BlamesNone.lift (Value.blameless_compareWith heap op left right)).weaken.bind fun _ _ =>
        .ite (blames_evalLinks right tail) (.pure trivial)

end

end Expr

theorem Evaluate.blames_tokens {ts : List Token} (hts : ∀ t ∈ ts, t.MayBlame may) :
    Blames may (tokens ts) fun _ => True := by
  unfold tokens
  split
  · exact Blames.heap.bind fun _ _ => .throw fun _ => nofun
  · next e hparse =>
    have hsame : List.Forall₂ (fun t t' => t' = t ∧ t.MayBlame may) ts ts :=
      List.forall₂_same.mpr fun t ht => ⟨rfl, hts t ht⟩
    obtain ⟨e', -, halike⟩ :=
      (Expr.derives_of_parse hparse).exchange Expr.exchanges_mayBlame ts hsame
    exact Expr.blames_eval halike

/-! ## Replacing names -/

namespace Phrase

/-- A token is a value or stands among tokens. -/
def Kept (ts : List Token) (t : Token) : Prop :=
  (∃ v, t = .value v) ∨ t ∈ ts

theorem blames_replaceFrom (pattern : List Token) {new : Eval Token}
    (hnew : Blames may new fun t => ∃ v, t = .value v) (skip : Nat) (ts : List Token) :
    Blames may (replaceFrom pattern new skip ts) fun ts' => ∀ t ∈ ts', Kept ts t := by
  induction ts generalizing skip with
  | nil => exact .pure nofun
  | cons token ts ih =>
      have keep {ts' : List Token} (h : ∀ t ∈ ts', Kept ts t) :
          ∀ t ∈ ts', Kept (token :: ts) t :=
        fun t ht => (h t ht).imp_right (List.mem_cons_of_mem _)
      cases skip with
      | succ skip => exact (ih skip).mono (fun _ => id) fun ts' => keep
      | zero =>
          refine .ite (hnew.bind fun t ht => ?_) ?_
          · refine (ih _).bind fun ts' hts' => .pure ?_
            exact List.forall_mem_cons.mpr ⟨.inl ht, keep hts'⟩
          · refine (ih 0).bind fun ts' hts' => .pure ?_
            exact List.forall_mem_cons.mpr ⟨.inr List.mem_cons_self, keep hts'⟩

theorem blames_replace (text : String) {new : Eval Token}
    (hnew : Blames may new fun t => ∃ v, t = .value v) (ts : List Token) :
    Blames may (replace text new ts) fun ts' => ∀ t ∈ ts', Kept ts t := by
  unfold replace
  split
  · exact .pure fun t ht => .inr ht
  · exact blames_replaceFrom _ hnew 0 ts

theorem Kept.trans {ts ts' : List Token} {t : Token} (h : Kept ts' t)
    (h' : ∀ u ∈ ts', Kept ts u) : Kept ts t := by
  rcases h with hvalue | hmem
  · exact .inl hvalue
  · exact h' t hmem

theorem blames_valueToken {x : Eval Value} (h : BlamesNone x) :
    Blames may (do return Token.value (← x)) fun t => ∃ v, t = .value v :=
  h.weaken.bind fun v _ => .pure ⟨v, rfl⟩

theorem blames_variableToken (v : Value) :
    Blames may (variableToken v) fun t => ∃ w, t = .value w := by
  cases v with
  | record cell => exact Blames.heap.bind fun _ _ => .pure ⟨_, rfl⟩
  | list cell => exact blames_valueToken (Value.blamesNone_detached _)
  | _ => exact .pure ⟨_, rfl⟩

theorem blames_replaceProperties (records : List (String × Entries Value)) (ts : List Token) :
    Blames may (replaceProperties records ts) fun ts' => ∀ t ∈ ts', Kept ts t := by
  have start : ∀ t ∈ ts, Kept ts t := fun t ht => .inr ht
  refine Blames.foldlM records (fun record _ ts' hts' => ?_) start
  refine Blames.foldlM record.2 (fun property _ ts'' hts'' => ?_) hts'
  have hstep := @blames_replace may (record.1 ++ " " ++ property.1) _
    (blames_valueToken (Value.blamesNone_detached property.2)) ts''
  exact hstep.mono (fun _ => id) fun _ h t ht => (h t ht).trans hts''

/-- Replacing a name of one word leaves no occurrence of it. -/
theorem blames_replaceName {n : String} (hn : Token.scan n.toList = .ok [.name n])
    {new : Eval Token} (hnew : Blames may new fun t => ∃ v, t = .value v) (ts : List Token) :
    Blames may (replaceFrom [.name n] new 0 ts) fun ts' => .name n ∉ ts' := by
  induction ts with
  | nil => exact .pure List.not_mem_nil
  | cons token ts ih =>
      simp only [replaceFrom, startsWith, Bool.and_true]
      by_cases hfits : token.fits (.name n) = true
      · rw [if_pos hfits]
        refine hnew.bind fun t ht => ih.bind fun ts' hts' => .pure ?_
        obtain ⟨v, rfl⟩ := ht
        simpa using hts'
      · rw [if_neg hfits]
        refine ih.bind fun ts' hts' => .pure fun hmem => ?_
        rcases List.mem_cons.mp hmem with heq | hmem
        · exact hfits ((Token.fits_name hn token).mpr heq.symm)
        · exact hts' hmem

/-- Replacing the names of entries keeps the other tokens, and of the names of one word those that
no entry has. -/
theorem blames_replaceEntries (entries : List (String × Value)) (ts : List Token) :
    Blames may
      (entries.foldlM (fun tokens entry => replace entry.1 (variableToken entry.2) tokens) ts)
      fun ts' => ∀ t ∈ ts', Kept ts t ∧
        ∀ n, Token.scan n.toList = .ok [.name n] → t = .name n → ∀ entry ∈ entries, entry.1 ≠ n := by
  induction entries generalizing ts with
  | nil => exact .pure fun t ht => ⟨.inr ht, fun _ _ _ _ hentry => by cases hentry⟩
  | cons entry entries ih =>
      rw [List.foldlM_cons]
      have hkept := blames_replace entry.1 (@blames_variableToken may entry.2) ts
      have hgone : Blames may (replace entry.1 (variableToken entry.2) ts) fun ts' =>
          Token.scan entry.1.toList = .ok [.name entry.1] → .name entry.1 ∉ ts' := by
        by_cases hword : Token.scan entry.1.toList = .ok [.name entry.1]
        · simp only [replace, ofText?_name hword]
          exact (blames_replaceName hword (blames_variableToken _) ts).mono (fun _ => id)
            fun _ h _ => h
        · exact hkept.mono (fun _ => id) fun _ _ h => absurd h hword
      have hboth : Blames may (replace entry.1 (variableToken entry.2) ts) fun ts' =>
          (∀ t ∈ ts', Kept ts t) ∧
            (Token.scan entry.1.toList = .ok [.name entry.1] → .name entry.1 ∉ ts') :=
        fun store => ⟨(hkept store).1, fun a ha => ⟨(hkept store).2 a ha, (hgone store).2 a ha⟩⟩
      refine hboth.bind fun ts' h => (ih ts').mono (fun _ => id) fun ts'' hts'' t ht => ?_
      obtain ⟨hkept', hothers⟩ := hts'' t ht
      refine ⟨hkept'.trans h.1, fun n hn htoken other hother => ?_⟩
      rcases List.mem_cons.mp hother with rfl | hother
      · rintro rfl
        rcases hkept' with ⟨v, hv⟩ | hmem
        · cases htoken.symm.trans hv
        · exact h.2 hn (htoken ▸ hmem)
      · exact hothers n hn htoken other hother

end Phrase

/-! ## Texts -/

namespace Evaluate

/-- Not bound in a scope. -/
abbrev Unbound (scope : Bindings) (n : String) : Prop :=
  scope.get? n = none

theorem blames_lookup (scope : Bindings) (n : String) :
    Blames (Unbound scope) (liftM (lookup scope n)) fun _ => True := by
  refine .lift (fun m hm => ?_) fun _ _ => trivial
  unfold lookup at hm
  split at hm
  · cases hm
  · cases hm
    assumption

theorem blames_lexemes (text : List Char) :
    Blames may (liftM (lexemes text)) fun ls => Lexeme.scan text = .ok ls := by
  refine .lift (fun n hn => ?_) fun ls hls => scan_of_lexemes hls
  unfold lexemes at hn
  split at hn <;> cases hn

/-- Names that stay behind when the names in scope have been replaced are not bound. -/
theorem blames_resolved (scope : Bindings) (records : List (String × Entries Value))
    {text : List Char} {ls : List Lexeme} (hls : Lexeme.scan text = .ok ls) :
    Blames (Unbound scope) (resolved scope records ls) fun _ => True := by
  refine (Phrase.blames_replaceProperties records _).bind fun ts hts => ?_
  refine (Phrase.blames_replaceEntries scope.entries ts).bind fun ts' hts' => blames_tokens ?_
  have hstr : Token.MayBlame (Unbound scope) (.name "str") := by
    intro n hn
    cases hn
    exact .inr rfl
  refine Joining.all_explicit hstr (fun _ _ => nofun) fun t ht n hn => ?_
  subst hn
  obtain ⟨hkept, hothers⟩ := hts' _ ht
  rcases hkept.trans hts with ⟨v, hv⟩ | hmem
  · cases hv
  · have hword := Lexeme.scan_names hls hmem
    have hnone : scope.entries.lookup n = none :=
      List.lookup_eq_none_iff.mpr fun entry hentry => by
        simpa using (hothers n hword rfl entry hentry).symm
    exact .inl ((scope.lookup_entries n).symm.trans hnone)

theorem blames_lexedWith (scope : Bindings) {evaluateIndex : List Char → Eval Value}
    (hindex : ∀ inner, Blames (Unbound scope) (evaluateIndex inner) fun _ => True)
    {text : List Char} {ls : List Lexeme} (hls : Lexeme.scan text = .ok ls) :
    Blames (Unbound scope) (lexedWith scope evaluateIndex text ls) fun _ => True := by
  unfold lexedWith
  split
  · exact blames_lookup scope _
  · split
    · refine (blames_lookup scope _).bind fun target _ => (hindex _).bind fun place _ => ?_
      exact Blames.heap.bind fun heap _ =>
        (BlamesNone.lift (Value.blameless_index heap target place)).weaken
    · refine Blames.heap.bind fun heap _ => ?_
      dsimp only
      split
      · exact .pure trivial
      · exact blames_resolved scope _ hls

theorem blames_asWritten (text : List Char) : Blames may (asWritten? text) fun _ => True := by
  refine .ite (fun store => ⟨fun n hn => ?_, fun _ _ => trivial⟩) (.pure trivial)
  -- Whatever fails inside is caught.
  rw [success?, tryCatch_run] at hn
  split at hn <;> cases hn

theorem blames_textFuel (scope : Bindings) (fuel : Nat) (source : List Char) :
    Blames (Unbound scope) (textFuel scope fuel source) fun _ => True := by
  induction fuel generalizing source with
  | zero => exact .throw fun _ => nofun
  | succ fuel ih =>
      refine (blames_asWritten _).bind fun written _ => ?_
      cases written with
      | some v => exact .pure trivial
      | none => exact (blames_lexemes _).bind fun ls hls => blames_lexedWith scope ih hls

theorem not_looksBracketed_of_name {text : List Char} {n : String} {ts : List Token}
    (h : Token.scan text = .ok (.name n :: ts)) : looksBracketed text = false := by
  by_contra hbracketed
  rw [Bool.not_eq_false, looksBracketed, Bool.and_eq_true, beq_iff_eq] at hbracketed
  obtain ⟨hopening, -⟩ := hbracketed
  cases text with
  | nil => cases hopening
  | cons c rest =>
      obtain rfl : c = '[' := Option.some.inj hopening
      have hcut : Lexeme.cutToken '[' rest = .ok ⟨.sign .openBracket, ['['], rest⟩ := rfl
      rw [Token.scan, Lexeme.scan_cons rfl hcut] at h
      cases hrest : Lexeme.scan rest with
      | error fault =>
          rw [hrest] at h
          cases h
      | ok ls =>
          rw [hrest] at h
          cases h

/-- A text that is a name fails if the name is not bound. -/
theorem text_of_unbound {scope : Bindings} {source n : String}
    (hform : Token.scan (Text.trim source.toList) = .ok [.name n])
    (hbuiltin : Builtin.ofName? n = none) (hn : scope.get? n = none) (store : Store) :
    text scope source store = (.error (.undefined n), store) := by
  have hwritten : asWritten? (Text.trim source.toList) = pure none := by
    rw [asWritten?, not_looksBracketed_of_name hform]
    rfl
  obtain ⟨ls, hls, htokens⟩ := lexemes_of_tokens hform
  obtain ⟨l, rfl, hl⟩ := List.map_eq_singleton_iff.mp htokens
  have hname : singleName? scope [l] = some n := by
    simp [singleName?, hl, hbuiltin]
  have hlookup : lookup scope n = .error (.undefined n) := by
    simp [lookup, hn]
  unfold text textFuel textWith
  rw [hwritten, pure_bind]
  dsimp only
  rw [hls]
  change lexedWith scope (textFuel scope source.toList.length) _ [l] store = _
  simp only [lexedWith, hname, hlookup]
  rfl

/-- A failure that blames a name blames one that is not bound; and a name that is not bound is
blamed where it stands alone. -/
theorem blamed_names_are_unbound (scope : Bindings) (source : String) (store : Store) :
    (∀ e, (text scope source store).1 = .error e → e.errorClass = .name →
      ∃ n, e = .undefined n ∧ e.message = s!"Variable '{n}' is not defined" ∧
        scope.get? n = none) ∧
      ∀ n, Token.scan (Text.trim source.toList) = .ok [.name n] → Builtin.ofName? n = none →
        scope.get? n = none → text scope source store = (.error (.undefined n), store) := by
  refine ⟨fun e he hclass => ?_, fun n hform hbuiltin hn => text_of_unbound hform hbuiltin hn store⟩
  obtain ⟨n, rfl⟩ := Error.eq_undefined_of_errorClass hclass
  exact ⟨n, rfl, rfl, (blames_textFuel scope _ _ store).1 n he⟩

/-- A name of two words, and one that is a reserved word. -/
def purseScope : Bindings :=
  NameMap.ofList [("gold coin", .int 3), ("or", .str "and"), ("str", .none)]

/-- Behind a name of two words, in a list that is joined to a text, a name is not bound. -/
theorem blamed_names_are_unbound_purse :
    (∃ e, (text purseScope "\"Cost: \" [gold coin, silver][0]" {}).1 = .error e ∧
      e.errorClass = .name ∧ ∃ n, e = .undefined n ∧ purseScope.get? n = none) ∧
      text purseScope " silver " {} = (.error (.undefined "silver"), {}) := by
  have hclass : (match (text purseScope "\"Cost: \" [gold coin, silver][0]" {}).1 with
      | .error e => e.errorClass == .name
      | .ok _ => false) = true := by decide +kernel
  obtain ⟨blames, -⟩ := blamed_names_are_unbound purseScope "\"Cost: \" [gold coin, silver][0]" {}
  obtain ⟨-, alone⟩ := blamed_names_are_unbound purseScope " silver " {}
  refine ⟨?_, alone "silver" rfl rfl rfl⟩
  split at hclass
  · next e he =>
    obtain ⟨n, hn, -, hunbound⟩ := blames e he (eq_of_beq hclass)
    exact ⟨e, he, eq_of_beq hclass, n, hn, hunbound⟩
  · cases hclass

end Evaluate

end Parlance
