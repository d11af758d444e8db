import Parlance.Expr.Evaluate
import Parlance.Proofs.Expr.Leaves
import Parlance.Proofs.Expr.Spelling
import Parlance.Proofs.Value.Freshness

/-!
# Trees make new values

Names are replaced by copies before a tree is read, and operators and functions make their containers
of what is in new ones. So a tree whose leaves are new has a new value.
-/

namespace Parlance

open Eval

variable {base now : Heap}

/-! ## Built-in functions -/

namespace Builtin

theorem isScalar_of_wholeValue {f : Float} {v : Value} (h : wholeValue f = .ok v) :
    v.isScalar = true := by
  unfold wholeValue at h
  split at h
  · cases h
  · cases h
    split <;> rfl

theorem isScalar_of_callSqrt {args : List Value} {v : Value} (h : callSqrt args = .ok v) :
    v.isScalar = true := by
  unfold callSqrt at h
  split at h
  · obtain ⟨x, -, h⟩ := Except.bind_eq_ok.mp h
    dsimp only at h
    split at h <;> cases h
    rfl
  · cases h

theorem isScalar_of_callPow {args : List Value} {v : Value} (h : callPow args = .ok v) :
    v.isScalar = true := by
  unfold callPow at h
  split at h
  · obtain ⟨x, -, h⟩ := Except.bind_eq_ok.mp h
    obtain ⟨y, -, h⟩ := Except.bind_eq_ok.mp h
    dsimp only at h
    split at h <;> cases h
    rfl
  · cases h

theorem isScalar_of_callAbs {args : List Value} {v : Value} (h : callAbs args = .ok v) :
    v.isScalar = true := by
  unfold callAbs at h
  split at h
  · split at h <;> cases h
    · exact Value.isScalar_integerOr _ _
    · rfl
  · cases h

theorem isScalar_of_callRound {args : List Value} {v : Value} (h : callRound args = .ok v) :
    v.isScalar = true := by
  unfold callRound at h
  split at h
  · split at h
    · cases h
      rfl
    · exact isScalar_of_wholeValue h
    · cases h
  · next x places =>
    obtain ⟨places, -, h⟩ := Except.bind_eq_ok.mp h
    dsimp only at h
    split at h
    · next hkind =>
      cases h
      cases v with
      | list cell => simp [Value.kind] at hkind
      | record cell => simp [Value.kind] at hkind
      | _ => rfl
    · obtain ⟨value, -, h⟩ := Except.bind_eq_ok.mp h
      split at h <;> cases h <;> rfl
  · cases h

theorem isScalar_of_callWhole {b : Builtin} {rule : Float → Float} {args : List Value} {v : Value}
    (h : callWhole b rule args = .ok v) : v.isScalar = true := by
  unfold callWhole at h
  split at h
  · obtain ⟨x, -, h⟩ := Except.bind_eq_ok.mp h
    exact isScalar_of_wholeValue h
  · cases h

theorem isScalar_of_callLen {heap : Heap} {args : List Value} {v : Value}
    (h : callLen heap args = .ok v) : v.isScalar = true := by
  unfold callLen at h
  split at h <;> cases h <;> rfl

theorem isScalar_of_callStr {heap : Heap} {args : List Value} {v : Value}
    (h : callStr heap args = .ok v) : v.isScalar = true := by
  unfold callStr at h
  split at h <;> cases h <;> rfl

theorem makes_callRandom (args : List Value) : MakesNew base now (callRandom args) := by
  cases args with
  | nil =>
      refine Makes.bind (P := fun _ _ => True) (.draw fun _ _ => trivial) fun _ _ _ _ => ?_
      exact Value.makes_scalar rfl
  | cons _ _ => exact .throw _

theorem makes_callRandint (args : List Value) : MakesNew base now (callRandint args) := by
  unfold callRandint
  split
  · refine Makes.bind (P := fun _ _ => True) (.lift fun _ _ _ _ _ => trivial) fun _ low _ _ => ?_
    refine Makes.bind (P := fun _ _ => True) (.lift fun _ _ _ _ _ => trivial) fun _ high _ _ => ?_
    refine .failIf ?_
    refine Makes.bind (P := fun _ _ => True) (.draw fun _ _ => trivial) fun _ _ _ _ => ?_
    exact Value.makes_scalar rfl
  · exact .throw _

theorem isScalar_of_mem_charValues {s : String} {v : Value} (h : v ∈ charValues s) :
    v.isScalar = true := by
  obtain ⟨c, -, rfl⟩ := List.mem_map.mp h
  rfl

theorem new_of_mem_candidates {heap : Heap} (hsealed : base.Sealed heap) {args : List Value}
    (hargs : ∀ v ∈ args, v.New base heap) : ∀ v ∈ candidates heap args, v.New base heap := by
  intro v hv
  unfold candidates at hv
  split at hv
  · exact hsealed.items (hargs _ List.mem_cons_self) v hv
  · exact .of_isScalar (isScalar_of_mem_charValues hv)
  · exact hargs v hv

theorem mem_of_extremeFrom {heap : Heap} {symbol : String} {wanted : Ordering} {best v : Value}
    {rest : List Value} (h : extremeFrom heap symbol wanted best rest = .ok v) :
    v ∈ best :: rest := by
  induction rest generalizing best with
  | nil =>
      cases h
      exact List.mem_cons_self
  | cons candidate rest ih =>
      simp only [extremeFrom] at h
      obtain ⟨order, -, h⟩ := Except.bind_eq_ok.mp h
      rcases List.mem_cons.mp (ih h) with rfl | hrest
      · split
        · exact List.mem_cons_of_mem _ List.mem_cons_self
        · exact List.mem_cons_self
      · exact List.mem_cons_of_mem _ (List.mem_cons_of_mem _ hrest)

theorem new_of_callExtreme {b : Builtin} {symbol : String} {wanted : Ordering} {heap : Heap}
    (hsealed : base.Sealed heap) {args : List Value} (hargs : ∀ v ∈ args, v.New base heap)
    {v : Value} (h : callExtreme b symbol wanted heap args = .ok v) : v.New base heap := by
  have hnew := new_of_mem_candidates hsealed hargs
  unfold callExtreme at h
  split at h
  · cases h
  · next hcandidates =>
    rw [hcandidates] at hnew
    exact hnew v (mem_of_extremeFrom h)

theorem makes_sumFrom {start sequence : Value} (hstart : start.New base now)
    (hsequence : sequence.New base now) : MakesNew base now (sumFrom start sequence) := by
  cases sequence with
  | list cell =>
      refine .failIf (Makes.heap.bind fun heap h hnow hheap => ?_)
      obtain ⟨rfl, hsealed⟩ := hheap
      have hitems := hsealed.items (hsequence.grow hnow)
      refine Makes.foldlM (hstart.grow hnow) (fun v hv heap' sum hgrow hsum => ?_)
        fun ext hsum => hsum.grow ext
      exact Value.makes_add hsum ((hitems v hv).grow hgrow)
  | _ => exact .throw _

theorem makes_callSum {args : List Value} (hargs : ∀ v ∈ args, v.New base now) :
    MakesNew base now (callSum args) := by
  unfold callSum
  split
  · exact makes_sumFrom (.of_isScalar rfl) (hargs _ List.mem_cons_self)
  · exact makes_sumFrom (hargs _ (by simp)) (hargs _ List.mem_cons_self)
  · exact .throw _

theorem makes_callList {args : List Value} (hargs : ∀ v ∈ args, v.New base now) :
    MakesNew base now (callList args) := by
  refine Makes.heap.bind fun heap h hnow hheap => ?_
  obtain ⟨rfl, hsealed⟩ := hheap
  split
  · exact .newList nofun
  · exact .newList fun v hv => .of_isScalar (isScalar_of_mem_charValues hv)
  · exact .newList (hsealed.items ((hargs _ List.mem_cons_self).grow hnow))
  · refine .newList fun v hv => ?_
    obtain ⟨name, -, rfl⟩ := List.mem_map.mp hv
    exact .of_isScalar rfl
  · exact .throw _
  · exact .throw _

/-- A function of new arguments makes a new value. -/
theorem makes_call (b : Builtin) {args : List Value} (hargs : ∀ v ∈ args, v.New base now) :
    MakesNew base now (b.call args) := by
  have scalar {now : Heap} {r : Except Error Value} (h : ∀ v, r = .ok v → v.isScalar = true) :
      MakesNew base now (liftM r) := .lift fun v _ _ _ hv => .of_isScalar (h v hv)
  have extreme (b : Builtin) (symbol : String) (wanted : Ordering) :
      MakesNew base now (do liftM (callExtreme b symbol wanted (← Eval.heap) args)) := by
    refine Makes.heap.bind fun heap h hnow hheap => ?_
    obtain ⟨rfl, hsealed⟩ := hheap
    refine .lift fun v heap' hgrow _ hv => ?_
    exact (new_of_callExtreme hsealed (fun w hw => (hargs w hw).grow hnow) hv).grow hgrow
  cases b with
  | sqrt => exact scalar fun _ => isScalar_of_callSqrt
  | pow => exact scalar fun _ => isScalar_of_callPow
  | abs => exact scalar fun _ => isScalar_of_callAbs
  | round => exact scalar fun _ => isScalar_of_callRound
  | floor => exact scalar fun _ => isScalar_of_callWhole
  | ceil => exact scalar fun _ => isScalar_of_callWhole
  | random => exact makes_callRandom args
  | randint => exact makes_callRandint args
  | sum => exact makes_callSum hargs
  | list => exact makes_callList hargs
  | min => exact extreme .min "<" .lt
  | max => exact extreme .max ">" .gt
  | len => exact Makes.heap.bind fun _ _ _ _ => scalar fun _ => isScalar_of_callLen
  | str => exact Makes.heap.bind fun _ _ _ _ => scalar fun _ => isScalar_of_callStr

end Builtin

/-! ## Trees -/

/-- A leaf whose value, if it has one, is new. -/
inductive Expr.NewLeaf (base now : Heap) : Expr → Prop
  | literal {v : Value} (h : v.New base now) : NewLeaf base now (.literal v)
  | name (n : String) : NewLeaf base now (.name n)

/-- A token whose value, if it has one, is new. -/
def Token.New (base now : Heap) (t : Token) : Prop :=
  ∀ v, t = .value v → v.New base now

theorem Token.New.grow {now' : Heap} {t : Token} (h : t.New base now) (ext : now.Extends now') :
    t.New base now' :=
  fun v hv => (h v hv).grow ext

namespace Expr

theorem newLeaf_of_token {t : Token} {e : Expr} (ht : t.New base now) (h : t.leaf? = some e) :
    e.NewLeaf base now := by
  cases t with
  | value v =>
      cases h
      exact .literal (ht v rfl)
  | name n =>
      cases h
      exact .name n
  | keyword k =>
      cases k <;> cases h
      all_goals exact .literal (.of_isScalar rfl)
  | sign s => cases h
  | _ =>
      cases h
      exact .literal (.of_isScalar rfl)

/-- Every token is exchanged for itself, to see what the leaves of a tree are. -/
theorem exchanges_new : Exchanges (fun t t' => t' = t ∧ t.New base now)
    (fun e _ => e.NewLeaf base now) :=
  ⟨fun h _ => h.1, fun h hleaf => ⟨_, h.1 ▸ hleaf, newLeaf_of_token h.2 hleaf⟩⟩

mutual

/-- A tree with new leaves has a new value. The induction is on how its leaves were found. -/
theorem makes_eval : ∀ {now : Heap} {e e' : Expr}, Alike (fun e _ => e.NewLeaf base now) e e' →
    MakesNew base now e.eval
  | _, _, _, .leaf (.literal h) => .pure fun _ ext _ => h.grow ext
  | _, _, _, .leaf (.name n) => .throw _
  | _, _, _, .list items => (makes_evalAll items).bind fun _ _ _ hvalues => .newList hvalues
  | _, _, _, .unary op operand => (makes_eval operand).bind fun _ v _ _ => v.makes_unary op
  | _, _, _, .binary op left right =>
    (makes_eval left).bind fun _ _ hnow hl =>
      ((makes_eval right).mono hnow fun _ _ _ h => h).bind fun _ _ ext hr =>
        Value.makes_binary op (hl.grow ext) hr
  | _, _, _, .compare first links =>
    (makes_eval first).bind fun _ v hnow _ => (makes_evalLinks v links).mono hnow fun _ _ _ h => h
  | _, _, _, .and left right =>
    (makes_eval left).bind fun _ _ hnow hl => Makes.heap.bind fun _ _ ext _ =>
      .ite ((makes_eval right).mono (hnow.trans ext) fun _ _ _ h => h)
        (.pure fun _ ext' _ => hl.grow (ext.trans ext'))
  | _, _, _, .or left right =>
    (makes_eval left).bind fun _ _ hnow hl => Makes.heap.bind fun _ _ ext _ =>
      .ite (.pure fun _ ext' _ => hl.grow (ext.trans ext'))
        ((makes_eval right).mono (hnow.trans ext) fun _ _ _ h => h)
  | _, _, _, .index target place =>
    (makes_eval target).bind fun _ _ hnow ht =>
      ((makes_eval place).mono hnow fun _ _ _ h => h).bind fun _ _ ext _ =>
        Makes.heap.bind fun heap h ext' hheap => .lift fun v heap' ext'' _ hv => by
          obtain ⟨rfl, hsealed⟩ := hheap
          exact (Value.new_of_index hsealed (ht.grow (ext.trans ext')) hv).grow ext''
  | _, _, _, .call callee args => by
    have harguments := makes_evalAll args
    have hcallee := makes_eval callee
    rw [eval.eq_def]
    dsimp only
    split
    · split
      · exact harguments.bind fun _ _ _ hvalues => Builtin.makes_call _ hvalues
      · exact .throw _
    · exact hcallee.bind fun _ _ _ _ => .throw _

theorem makes_evalAll : ∀ {now : Heap} {es es' : List Expr},
    AllAlike (fun e _ => e.NewLeaf base now) es es' →
      Makes base now (evalAll es) fun heap vs => ∀ v ∈ vs, v.New base heap
  | _, _, _, .nil => .pure fun _ _ _ => nofun
  | _, _, _, .cons head tail =>
    (makes_eval head).bind fun _ _ hnow hv =>
      ((makes_evalAll tail).mono hnow fun _ _ _ h => h).bind fun _ _ ext hvs =>
        .pure fun _ ext' _ w hw => by
          rcases List.mem_cons.mp hw with rfl | hw
          · exact hv.grow (ext.trans ext')
          · exact (hvs w hw).grow ext'

theorem makes_evalLinks (left : Value) : ∀ {now : Heap} {links links' : List Link},
    LinksAlike (fun e _ => e.NewLeaf base now) links links' →
      MakesNew base now (evalLinks left links)
  | _, _, _, .nil => Value.makes_scalar rfl
  | _, _, _, .cons op operand tail =>
    (makes_eval operand).bind fun _ right hnow _ => Makes.heap.bind fun _ _ ext _ =>
      Makes.bind (P := fun _ _ => True) (.lift fun _ _ _ _ _ => trivial) fun _ _ ext' _ =>
        .ite ((makes_evalLinks right tail).mono (hnow.trans (ext.trans ext')) fun _ _ _ h => h)
          (Value.makes_scalar rfl)

end

end Expr

theorem Evaluate.makes_tokens {ts : List Token} (hts : ∀ t ∈ ts, t.New base now) :
    MakesNew base now (tokens ts) := by
  unfold tokens
  split
  · exact Makes.heap.bind fun _ _ _ _ => .throw _
  · next e hparse =>
    have hsame : List.Forall₂ (fun t t' => t' = t ∧ t.New base now) ts ts :=
      List.forall₂_same.mpr fun t ht => ⟨rfl, hts t ht⟩
    obtain ⟨e', -, halike⟩ := (Expr.derives_of_parse hparse).exchange Expr.exchanges_new ts hsame
    exact Expr.makes_eval halike

/-! ## Tokens -/

namespace Lexeme

theorem cutNumber_ne_value {source : List Char} {cut : Cut} (h : cutNumber source = .ok cut)
    (v : Value) : cut.token ≠ .value v := by
  have hnumber (isWhole : Bool) (text : List Char) : numberToken isWhole text ≠ .value v := by
    unfold numberToken
    dsimp only
    split <;> exact nofun
  unfold cutNumber at h
  dsimp only at h
  split at h
  · cases h
    exact hnumber _ _
  · split at h <;> cases h
    exact hnumber _ _

theorem cutToken_ne_value {c : Char} {rest : List Char} {cut : Cut} (h : cutToken c rest = .ok cut)
    (v : Value) : cut.token ≠ .value v := by
  unfold cutToken at h
  split at h
  · split at h <;> cases h
    exact nofun
  · split at h
    · exact cutNumber_ne_value h v
    · split at h
      · cases h
        unfold cutWord
        dsimp only
        split <;> exact nofun
      · split at h
        · next hsign =>
          cases h
          unfold cutSign? at hsign
          split at hsign <;> cases hsign
          all_goals exact nofun
        · cases h

/-- No text is spelled with a value. -/
theorem new_tokens {source : List Char} {ls : List Lexeme} (h : scan source = .ok ls) :
    ∀ t ∈ ls.map Lexeme.token, t.New base now := by
  intro t ht v hv
  have hall : ∀ l ∈ ls, l.token ≠ .value v :=
    forall_mem_of_scan h fun _ _ _ _ _ first => cutToken_ne_value first v
  obtain ⟨l, hl, rfl⟩ := List.mem_map.mp ht
  exact absurd hv (hall l hl)

end Lexeme

namespace Joining

variable {P : Token → Prop}

theorem all_split {tokens : List Token} (h : ∀ t ∈ tokens, P t) (depth : Nat) :
    (∀ part ∈ (split depth tokens).texts, (∀ t ∈ part.1, P t) ∧ P part.2) ∧
      ∀ t ∈ (split depth tokens).last, P t := by
  induction tokens generalizing depth with
  | nil => simp [split]
  | cons token tokens ih =>
      simp only [List.forall_mem_cons] at h
      obtain ⟨htexts, hlast⟩ := ih h.2 (depthAfter depth token)
      simp only [split]
      split
      · simp only [List.forall_mem_cons]
        exact ⟨⟨⟨nofun, h.1⟩, htexts⟩, hlast⟩
      · split
        · next heq =>
          refine ⟨nofun, ?_⟩
          simp only [List.forall_mem_cons]
          exact ⟨h.1, hlast⟩
        · next run text texts heq =>
          rw [heq] at htexts
          simp only [List.forall_mem_cons] at htexts ⊢
          exact ⟨⟨⟨⟨h.1, htexts.1.1⟩, htexts.1.2⟩, htexts.2⟩, hlast⟩

theorem all_trimPlus {run : List Token} (h : ∀ t ∈ run, P t) : ∀ t ∈ trimPlus run, P t := by
  have hfront : ∀ t ∈ dropFrontPlus run, P t := by
    unfold dropFrontPlus
    split
    · exact fun t ht => h t (List.mem_cons_of_mem _ ht)
    · exact h
  unfold trimPlus
  dsimp only
  split
  · exact fun t ht => hfront t ((List.dropLast_sublist _).subset ht)
  · exact hfront

theorem all_asText (hname : P (.name "str")) (hsign : ∀ s, P (.sign s)) {run : List Token}
    (h : ∀ t ∈ run, P t) : ∀ piece ∈ asText run, ∀ t ∈ piece, P t := by
  have htrim := all_trimPlus h
  unfold asText
  dsimp only
  split
  · exact nofun
  · intro piece hpiece
    obtain rfl := List.mem_singleton.mp hpiece
    simp only [List.cons_append, List.forall_mem_cons, List.forall_mem_append]
    exact ⟨hname, hsign _, htrim, hsign _, nofun⟩

theorem all_joinPlus (hsign : ∀ s, P (.sign s)) {pieces : List (List Token)}
    (h : ∀ piece ∈ pieces, ∀ t ∈ piece, P t) : ∀ t ∈ joinPlus pieces, P t := by
  fun_induction joinPlus pieces with
  | case1 => exact nofun
  | case2 piece => exact h piece List.mem_cons_self
  | case3 piece pieces _ ih =>
      simp only [List.forall_mem_append, List.forall_mem_cons]
      have hrest := ih fun other hother => h other (List.mem_cons_of_mem _ hother)
      exact ⟨h piece List.mem_cons_self, hsign _, hrest⟩

/-- Making joins explicit adds signs and a name, and no other tokens. -/
theorem all_explicit (hname : P (.name "str")) (hsign : ∀ s, P (.sign s)) {tokens : List Token}
    (h : ∀ t ∈ tokens, P t) : ∀ t ∈ explicit tokens, P t := by
  obtain ⟨htexts, hlast⟩ := all_split h 0
  unfold explicit
  split
  · exact h
  · dsimp only
    split
    · exact h
    · refine all_joinPlus hsign fun piece hpiece => ?_
      rcases List.mem_append.mp hpiece with hpiece | hpiece
      · obtain ⟨part, hpart, hpiece⟩ := List.mem_flatMap.mp hpiece
        obtain ⟨hrun, htext⟩ := htexts part hpart
        rcases List.mem_append.mp hpiece with hpiece | hpiece
        · exact all_asText hname hsign hrun piece hpiece
        · obtain rfl := List.mem_singleton.mp hpiece
          exact fun t ht => List.mem_singleton.mp ht ▸ htext
      · exact all_asText hname hsign hlast piece hpiece

end Joining

namespace Phrase

/-- Tokens whose values are new. -/
abbrev MakesTokens (base now : Heap) (x : Eval (List Token)) : Prop :=
  Makes base now x fun heap ts => ∀ t ∈ ts, t.New base heap

theorem makes_replaceFrom (pattern : List Token) {new : Eval Token}
    (hnew : Makes base now new fun heap t => t.New base heap) (skip : Nat) {tokens : List Token}
    (htokens : ∀ t ∈ tokens, t.New base now) :
    MakesTokens base now (replaceFrom pattern new skip tokens) := by
  induction tokens generalizing now skip with
  | nil => exact .pure fun _ _ _ => nofun
  | cons token tokens ih =>
      obtain ⟨htoken, hrest⟩ := List.forall_mem_cons.mp htokens
      -- A token in front of others stays new while these are replaced.
      have front {heap : Heap} {t : Token} {skip : Nat} (hnow : now.Extends heap)
          (ht : t.New base heap) :
          MakesTokens base heap (do
            let rest ← replaceFrom pattern new skip tokens
            return t :: rest) := by
        refine (ih (hnew.mono hnow fun _ _ _ h => h) skip fun u hu => (hrest u hu).grow hnow).bind
          fun heap' ts ext hts => .pure fun heap'' ext' _ u hu => ?_
        rcases List.mem_cons.mp hu with rfl | hu
        · exact ht.grow (ext.trans ext')
        · exact (hts u hu).grow ext'
      cases skip with
      | succ skip => exact ih hnew skip hrest
      | zero =>
          refine .ite ?_ (front (.refl now) htoken)
          exact hnew.bind fun heap t hnow ht => front hnow ht

theorem makes_replace (text : String) {new : Eval Token}
    (hnew : Makes base now new fun heap t => t.New base heap) {tokens : List Token}
    (htokens : ∀ t ∈ tokens, t.New base now) : MakesTokens base now (replace text new tokens) := by
  unfold replace
  split
  · exact .pure fun _ ext _ t ht => (htokens t ht).grow ext
  · exact makes_replaceFrom _ hnew 0 htokens

theorem makes_valueToken {x : Eval Value} (h : MakesNew base now x) :
    Makes base now (do return Token.value (← x)) fun heap t => t.New base heap := by
  refine h.bind fun heap v _ hv => .pure fun heap' ext _ w hw => ?_
  cases hw
  exact hv.grow ext

theorem makes_replaceProperties (records : List (String × Entries Value)) {tokens : List Token}
    (htokens : ∀ t ∈ tokens, t.New base now) :
    MakesTokens base now (replaceProperties records tokens) := by
  have grow {heap heap' : Heap} {ts : List Token} (ext : heap.Extends heap')
      (hts : ∀ t ∈ ts, t.New base heap) : ∀ t ∈ ts, t.New base heap' :=
    fun t ht => (hts t ht).grow ext
  refine Makes.foldlM htokens (fun record _ heap ts _ hts => ?_) grow
  refine Makes.foldlM hts (fun property _ heap' ts' _ hts' => ?_) grow
  exact makes_replace _ (makes_valueToken (Value.makes_detached _)) hts'

theorem makes_variableToken (v : Value) :
    Makes base now (variableToken v) fun heap t => t.New base heap := by
  cases v with
  | record cell =>
      refine Makes.heap.bind fun heap h _ _ => ?_
      exact .pure fun _ _ _ w hw => by cases hw; exact .of_isScalar rfl
  | list cell => exact makes_valueToken (Value.makes_detached _)
  | _ => exact .pure fun _ _ _ w hw => by cases hw; exact .of_isScalar rfl

theorem makes_replaceVariables (scope : Bindings) {tokens : List Token}
    (htokens : ∀ t ∈ tokens, t.New base now) :
    MakesTokens base now (replaceVariables scope tokens) := by
  refine Makes.foldlM htokens (fun entry _ heap ts _ hts => ?_)
    fun ext hts t ht => (hts t ht).grow ext
  exact makes_replace _ (makes_variableToken _) hts

end Phrase

end Parlance
