import Parlance.Expr.Evaluate
import Parlance.Proofs.Expr.Adjacency
import Parlance.Proofs.Value.Growth

/-!
# Sums that start with a text

A sum goes from left to right. Where it starts with a text, it has a value only if all its operands
are texts and are added; then it does not matter how the operands are grouped. Nothing can be
subtracted from a text, no sign stands in front of one, and it cannot be called.
-/

namespace Parlance

namespace Value

open Eval

theorem add_of_str {s : String} {r v : Value} {store store' : Store}
    (h : binary .add (.str s) r store = (.ok v, store')) :
    ∃ t, r = .str t ∧ v = .str (s ++ t) ∧ store = store' := by
  cases r with
  | str t =>
      cases h
      exact ⟨t, rfl, rfl, rfl⟩
  | _ => cases h

theorem add_to_str {l v : Value} {t : String} {store store' : Store}
    (h : binary .add l (.str t) store = (.ok v, store')) :
    ∃ s, l = .str s ∧ v = .str (s ++ t) ∧ store = store' := by
  cases l with
  | str s =>
      cases h
      exact ⟨s, rfl, rfl, rfl⟩
  | _ => cases h

theorem subtract_of_str {s : String} {r v : Value} {store store' : Store} :
    binary .subtract (.str s) r store ≠ (.ok v, store') := by
  cases r <;> exact nofun

theorem plus_of_str {s : String} {v : Value} {store store' : Store} :
    unary .plus (.str s) store ≠ (.ok v, store') :=
  nofun

end Value

namespace Expr

open Eval

/-! ## Values of trees -/

/-- An expression that never has a value. -/
def Fails (e : Expr) : Prop :=
  ∀ (store store' : Store) (v : Value), e.eval store ≠ (.ok v, store')

/-- Where the expression has a value, this is a text, and the one that is said. -/
def Agrees (e : Expr) (say : Eval String) : Prop :=
  ∀ (store store' : Store) (v : Value), e.eval store = (.ok v, store') →
    ∃ s, v = .str s ∧ say store = (.ok s, store')

variable {a b e : Expr} {op : BinaryOp} {say : Eval String}

theorem Fails.agrees (h : Fails e) : Agrees e say :=
  fun store store' v heval => absurd heval (h store store' v)

theorem binary_eq_ok {v : Value} {store store' : Store}
    (h : (Expr.binary op a b).eval store = (.ok v, store')) :
    ∃ l r middle middle', a.eval store = (.ok l, middle) ∧ b.eval middle = (.ok r, middle') ∧
      Value.binary op l r middle' = (.ok v, store') := by
  rw [eval] at h
  obtain ⟨l, middle, hl, hrest⟩ := bind_eq_ok.mp h
  obtain ⟨r, middle', hr, hv⟩ := bind_eq_ok.mp hrest
  exact ⟨l, r, middle, middle', hl, hr, hv⟩

theorem Fails.left (h : Fails a) : Fails (.binary op a b) := by
  intro store store' v heval
  obtain ⟨l, _, middle, _, hl, -, -⟩ := binary_eq_ok heval
  exact h store middle l hl

theorem Fails.right (h : Fails b) : Fails (.binary op a b) := by
  intro store store' v heval
  obtain ⟨_, r, middle, middle', -, hr, -⟩ := binary_eq_ok heval
  exact h middle middle' r hr

theorem Fails.unary {op : UnaryOp} (h : Fails a) : Fails (.unary op a) := by
  intro store store' v heval
  rw [eval] at heval
  obtain ⟨w, middle, hw, -⟩ := bind_eq_ok.mp heval
  exact h store middle w hw

theorem Fails.index (h : Fails a) : Fails (.index a b) := by
  intro store store' v heval
  rw [eval] at heval
  obtain ⟨w, middle, hw, -⟩ := bind_eq_ok.mp heval
  exact h store middle w hw

/-- Only what a name stands for can be called. -/
theorem Fails.call {args : List Expr} (hname : ∀ n, a ≠ .name n) : Fails (.call a args) := by
  intro store store' v heval
  rw [eval.eq_def] at heval
  dsimp only at heval
  split at heval
  · next n => exact hname n rfl
  · obtain ⟨w, middle, -, hthrow⟩ := bind_eq_ok.mp heval
    cases hthrow

/-- A text is added to a text. -/
theorem Agrees.add (h : Agrees a say) (s : String) :
    Agrees (.binary .add a (.literal (.str s))) (do return (← say) ++ s) := by
  intro store store' v heval
  obtain ⟨l, r, middle, middle', hl, hr, hv⟩ := binary_eq_ok heval
  obtain ⟨front, rfl, hsay⟩ := h _ _ _ hl
  cases hr
  cases hv
  exact ⟨front ++ s, rfl, bind_eq_ok.mpr ⟨front, _, hsay, rfl⟩⟩

/-- A text is added to a value that is a text, too. -/
theorem agrees_add (e : Expr) (s : String) :
    Agrees (.binary .add e (.literal (.str s))) (do
      let v ← e.eval
      return v.display (← Eval.heap) ++ s) := by
  intro store store' v heval
  obtain ⟨l, r, middle, middle', hl, hr, hv⟩ := binary_eq_ok heval
  cases hr
  obtain ⟨front, rfl, rfl, rfl⟩ := Value.add_to_str hv
  exact ⟨front ++ s, rfl, bind_eq_ok.mpr ⟨_, _, hl, rfl⟩⟩

/-! ## Sums behind a sum -/

theorem length_lt_append_cons (ts us : List Token) (t : Token) :
    ts.length < (ts ++ t :: us).length := by
  rw [List.length_append]
  exact Nat.lt_add_of_pos_right (Nat.succ_pos _)

/-- A sum is a product, or a sum with a product behind it. -/
theorem Derives.sum_induction {motive : (us : List Token) → (e : Expr) → Derives .sum us e → Prop}
    (term : ∀ {us : List Token} {e : Expr} (h : Derives .term us e), motive us e (.tighter rfl h))
    (sum : ∀ {ts us : List Token} {x y : Expr} {s : Sign} {op : BinaryOp}
      (sign : (s, op) ∈ sumOps) (left : Derives .sum ts x) (right : Derives .term us y),
      motive ts x left → motive (ts ++ .sign s :: us) (.binary op x y) (.sum sign left right))
    {us : List Token} {e : Expr} (h : Derives .sum us e) : motive us e h := by
  induction hlength : us.length using Nat.strongRecOn generalizing us e with
  | ind length ih =>
      subst hlength
      cases h with
      | tighter next h =>
          cases next
          exact term h
      | sum sign left right =>
          exact sum sign left right (ih _ (length_lt_append_cons _ _ _) left rfl)

/-- A product is a signed operand, or a product with a signed operand behind it. -/
theorem Derives.term_induction {motive : (us : List Token) → (e : Expr) → Derives .term us e → Prop}
    (signed : ∀ {us : List Token} {e : Expr} (h : Derives .signed us e),
      motive us e (.tighter rfl h))
    (term : ∀ {ts us : List Token} {x y : Expr} {s : Sign} {op : BinaryOp}
      (sign : (s, op) ∈ termOps) (left : Derives .term ts x) (right : Derives .signed us y),
      motive ts x left → motive (ts ++ .sign s :: us) (.binary op x y) (.term sign left right))
    {us : List Token} {e : Expr} (h : Derives .term us e) : motive us e h := by
  induction hlength : us.length using Nat.strongRecOn generalizing us e with
  | ind length ih =>
      subst hlength
      cases h with
      | tighter next h =>
          cases next
          exact signed h
      | term sign left right =>
          exact term sign left right (ih _ (length_lt_append_cons _ _ _) left rfl)

/-- A sum behind a plus sign is added operand by operand. Behind a text, the sum by itself is a text
as well. -/
theorem regroup {front us : List Token} (hfront : Derives .sum front a) (ha : Agrees a say)
    (h : Derives .sum us e) :
    ∃ whole, Derives .sum (front ++ .sign .plus :: us) whole ∧
      ∀ (store store' : Store) (v : Value), whole.eval store = (.ok v, store') →
        ∃ s t middle, say store = (.ok s, middle) ∧ e.eval middle = (.ok (.str t), store') ∧
          v = .str (s ++ t) := by
  induction h using Derives.sum_induction with
  | @term us e h =>
      refine ⟨.binary .add a e, .sum (by decide) hfront h, fun store store' v heval => ?_⟩
      obtain ⟨l, r, middle, middle', hleft, hright, hv⟩ := binary_eq_ok heval
      obtain ⟨s, rfl, hsay⟩ := ha _ _ _ hleft
      obtain ⟨t, rfl, rfl, rfl⟩ := Value.add_of_str hv
      exact ⟨s, t, middle, hsay, hright, rfl⟩
  | @sum ts us x y s op sign _ right ih =>
      obtain ⟨whole, hderives, hwhole⟩ := ih
      refine ⟨.binary op whole y, ?_, fun store store' v heval => ?_⟩
      · have hmore := Derives.sum sign hderives right
        rwa [List.append_assoc] at hmore
      · obtain ⟨l, r, middle, middle', hleft, hright, hv⟩ := binary_eq_ok heval
        obtain ⟨s, t, first, hsay, hx, rfl⟩ := hwhole _ _ _ hleft
        simp only [sumOps, List.mem_cons, Prod.mk.injEq, List.not_mem_nil, or_false] at sign
        rcases sign with ⟨-, rfl⟩ | ⟨-, rfl⟩
        · obtain ⟨u, rfl, rfl, rfl⟩ := Value.add_of_str hv
          refine ⟨s, t ++ u, first, hsay, ?_, by rw [String.append_assoc]⟩
          rw [eval]
          exact bind_eq_ok.mpr ⟨_, _, hx, bind_eq_ok.mpr ⟨_, _, hright, rfl⟩⟩
        · exact absurd hv Value.subtract_of_str

theorem agrees_regroup {front us : List Token} (hfront : Derives .sum front a) (ha : Agrees a say)
    (h : Derives .sum us e) :
    ∃ whole, Derives .sum (front ++ .sign .plus :: us) whole ∧
      Agrees whole (do
        let s ← say
        let v ← e.eval
        return s ++ v.display (← Eval.heap)) := by
  obtain ⟨whole, hderives, hwhole⟩ := regroup hfront ha h
  refine ⟨whole, hderives, fun store store' v heval => ?_⟩
  obtain ⟨s, t, middle, hsay, ht, rfl⟩ := hwhole _ _ _ heval
  exact ⟨s ++ t, rfl, bind_eq_ok.mpr ⟨s, middle, hsay, bind_eq_ok.mpr ⟨_, _, ht, rfl⟩⟩⟩

/-! ## Signs in front -/

theorem Derives.cons_of_append {l : Level} {ts us vs : List Token} {t : Token}
    (h : Derives l ts e) (heq : ts ++ us = t :: vs) : ∃ ts', ts = t :: ts' ∧ vs = ts' ++ us := by
  obtain ⟨first, ts', rfl, -⟩ := h.opens
  obtain ⟨rfl, rfl⟩ := List.cons.inj heq
  exact ⟨ts', rfl, rfl⟩

/-- A product without the minus sign in front of it is a product, too. -/
theorem term_of_minus {us vs : List Token} (h : Derives .term us e) (hus : us = .sign .minus :: vs) :
    ∃ e', Derives .term vs e' := by
  induction h using Derives.term_induction generalizing vs with
  | signed h =>
      subst hus
      cases h with
      | tighter next h =>
          cases next
          obtain ⟨_, _, ⟨⟩, hopens⟩ := h.opens
          cases hopens
      | signed _ operand => exact ⟨_, .tighter rfl operand⟩
  | term sign left right ih =>
      obtain ⟨ts', rfl, rfl⟩ := left.cons_of_append hus
      obtain ⟨e', he'⟩ := ih rfl
      exact ⟨_, .term sign he' right⟩

/-- Nothing is subtracted from a text. -/
theorem fails_minus {front us vs : List Token} (hfront : Derives .sum front a) (ha : Agrees a say)
    (h : Derives .sum us e) (hus : us = .sign .minus :: vs) :
    ∃ whole, Derives .sum (front ++ us) whole ∧ Fails whole := by
  induction h using Derives.sum_induction generalizing vs with
  | term h =>
      obtain ⟨e', he'⟩ := term_of_minus h hus
      refine ⟨.binary .subtract a e', hus ▸ .sum (by decide) hfront he', ?_⟩
      intro store store' v heval
      obtain ⟨l, r, middle, middle', hleft, -, hv⟩ := binary_eq_ok heval
      obtain ⟨s, rfl, -⟩ := ha _ _ _ hleft
      exact Value.subtract_of_str hv
  | @sum ts us x y s op sign left right ih =>
      obtain ⟨ts', rfl, rfl⟩ := left.cons_of_append hus
      obtain ⟨whole, hwhole, hfails⟩ := ih rfl
      have hmore := Derives.sum sign hwhole right
      rw [List.append_assoc] at hmore
      exact ⟨_, hmore, hfails.left⟩

/-! ## Parentheses behind -/

theorem access_called {text : Token} {s : String} (htext : text.leaf? = some (.literal (.str s)))
    {us vs : List Token} (h : Derives .access us e) (hus : us = .sign .openParen :: vs) :
    ∃ e', Derives .access (text :: us) e' ∧ Fails e' ∧ ∀ n, e' ≠ .name n := by
  induction hlength : us.length using Nat.strongRecOn generalizing us vs e with
  | ind length ih =>
      subst hlength
      cases h with
      | tighter next h =>
          cases next
          cases h with
          | tighter next _ => cases next
          | leaf h =>
              cases hus
              cases h
          | parens inner =>
              have hcall := Derives.call (.tighter rfl (.leaf htext)) inner.sequence
              exact ⟨_, hcall, .call nofun, nofun⟩
          | list _ => cases hus
      | index target place =>
          obtain ⟨ts', rfl, -⟩ := target.cons_of_append hus
          obtain ⟨e', he', hfails, -⟩ := ih _ (length_lt_append_cons _ _ _) target rfl rfl
          exact ⟨_, .index he' place, hfails.index, nofun⟩
      | call callee sequence =>
          obtain ⟨ts', rfl, -⟩ := callee.cons_of_append hus
          obtain ⟨e', he', -, hname⟩ := ih _ (length_lt_append_cons _ _ _) callee rfl rfl
          exact ⟨_, .call he' sequence, .call hname, nofun⟩

/-- A text that is called has no value, whatever is done with it. -/
theorem power_called {text : Token} {s : String} (htext : text.leaf? = some (.literal (.str s)))
    {us : List Token} (h : Derives .signed (.sign .openParen :: us) e) :
    ∃ e', Derives .power (text :: .sign .openParen :: us) e' ∧ Fails e' := by
  generalize hvs : Token.sign .openParen :: us = vs at h
  cases h with
  | signed sign operand =>
      obtain ⟨⟨⟩, -⟩ := List.cons.inj hvs
      simp [signOps] at sign
  | tighter next h =>
      cases next
      cases h with
      | tighter next h =>
          cases next
          obtain ⟨e', he', hfails, -⟩ := access_called htext h hvs.symm
          exact ⟨e', .tighter rfl he', hfails⟩
      | power base exponent =>
          obtain ⟨ts', rfl, hus⟩ := base.cons_of_append hvs.symm
          obtain ⟨e', he', hfails, -⟩ := access_called htext base rfl
          exact ⟨_, .power he' exponent, hfails.left⟩

/-- Tokens of an operand that has no value with a parenthesis behind them. -/
def Uncallable (operand : List Token) : Prop :=
  ∀ (us : List Token) (e : Expr), Derives .signed (.sign .openParen :: us) e →
    ∃ e', Derives .signed (operand ++ .sign .openParen :: us) e' ∧ Fails e'

theorem uncallable_text {text : Token} {s : String} (htext : text.leaf? = some (.literal (.str s))) :
    Uncallable [text] := by
  intro us e h
  obtain ⟨e', he', hfails⟩ := power_called htext h
  exact ⟨e', .tighter rfl he', hfails⟩

theorem uncallable_plus {text : Token} {s : String} (htext : text.leaf? = some (.literal (.str s))) :
    Uncallable [.sign .plus, text] := by
  intro us e h
  obtain ⟨e', he', hfails⟩ := power_called htext h
  exact ⟨.unary .plus e', .signed (by decide) (.tighter rfl he'), hfails.unary⟩

theorem Uncallable.term {operand us vs : List Token} (hoperand : Uncallable operand)
    (h : Derives .term us e) (hus : us = .sign .openParen :: vs) :
    ∃ e', Derives .term (operand ++ us) e' ∧ Fails e' := by
  induction h using Derives.term_induction generalizing vs with
  | signed h =>
      subst hus
      obtain ⟨e', he', hfails⟩ := hoperand vs _ h
      exact ⟨e', .tighter rfl he', hfails⟩
  | term sign left right ih =>
      obtain ⟨ts', rfl, -⟩ := left.cons_of_append hus
      obtain ⟨e', he', hfails⟩ := ih rfl
      have hmore := Derives.term sign he' right
      rw [List.append_assoc] at hmore
      exact ⟨_, hmore, hfails.left⟩

/-- Whatever stands in front of the operand, the sum has no value. -/
theorem Uncallable.sum {front operand us vs : List Token} (hoperand : Uncallable operand)
    (hfront : Derives .sum front a) (h : Derives .sum us e) (hus : us = .sign .openParen :: vs) :
    ∃ e', Derives .sum (front ++ .sign .plus :: operand ++ us) e' ∧ Fails e' := by
  induction h using Derives.sum_induction generalizing vs with
  | term h =>
      obtain ⟨e', he', hfails⟩ := hoperand.term h hus
      refine ⟨.binary .add a e', ?_, hfails.right⟩
      rw [List.append_assoc]
      exact .sum (by decide) hfront he'
  | sum sign left right ih =>
      obtain ⟨ts', rfl, -⟩ := left.cons_of_append hus
      obtain ⟨e', he', hfails⟩ := ih rfl
      have hmore := Derives.sum sign he' right
      rw [List.append_assoc] at hmore
      exact ⟨_, hmore, hfails.left⟩

end Expr

end Parlance
