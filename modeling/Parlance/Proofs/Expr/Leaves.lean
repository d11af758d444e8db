import Mathlib.Data.List.Forall2
import Parlance.Proofs.Expr.Completeness

/-!
# Exchanging leaves

The grammar does not look into leaves. If tokens are exchanged for others, but only leaves for
leaves, then it derives the same tree from both lists up to the leaves that were exchanged.
-/

namespace Parlance

namespace Expr

mutual

/-- Two trees are alike up to their leaves. -/
inductive Alike (leaves : Expr → Expr → Prop) : Expr → Expr → Prop
  | leaf {a b : Expr} (h : leaves a b) : Alike leaves a b
  | list {as bs : List Expr} (items : AllAlike leaves as bs) : Alike leaves (.list as) (.list bs)
  | unary {a b : Expr} (op : UnaryOp) (operand : Alike leaves a b) :
      Alike leaves (.unary op a) (.unary op b)
  | binary {a a' b b' : Expr} (op : BinaryOp) (left : Alike leaves a a')
      (right : Alike leaves b b') : Alike leaves (.binary op a b) (.binary op a' b')
  | compare {a b : Expr} {as bs : List Link} (first : Alike leaves a b)
      (links : LinksAlike leaves as bs) : Alike leaves (.compare a as) (.compare b bs)
  | and {a a' b b' : Expr} (left : Alike leaves a a') (right : Alike leaves b b') :
      Alike leaves (.and a b) (.and a' b')
  | or {a a' b b' : Expr} (left : Alike leaves a a') (right : Alike leaves b b') :
      Alike leaves (.or a b) (.or a' b')
  | index {a a' b b' : Expr} (target : Alike leaves a a') (place : Alike leaves b b') :
      Alike leaves (.index a b) (.index a' b')
  | call {a b : Expr} {as bs : List Expr} (callee : Alike leaves a b)
      (args : AllAlike leaves as bs) : Alike leaves (.call a as) (.call b bs)

/-- Trees are alike one by one. -/
inductive AllAlike (leaves : Expr → Expr → Prop) : List Expr → List Expr → Prop
  | nil : AllAlike leaves [] []
  | cons {a b : Expr} {as bs : List Expr} (head : Alike leaves a b) (tail : AllAlike leaves as bs) :
      AllAlike leaves (a :: as) (b :: bs)

/-- The steps of two chains have the same operators, and operands that are alike. -/
inductive LinksAlike (leaves : Expr → Expr → Prop) : List Link → List Link → Prop
  | nil : LinksAlike leaves [] []
  | cons {a b : Expr} {as bs : List Link} (op : CompareOp) (operand : Alike leaves a b)
      (tail : LinksAlike leaves as bs) : LinksAlike leaves (.mk op a :: as) (.mk op b :: bs)

end

/-- Tokens are exchanged for tokens only where both stand for leaves. -/
structure Exchanges (tokens : Token → Token → Prop) (leaves : Expr → Expr → Prop) : Prop where
  kept {t t' : Token} (h : tokens t t') (hleaf : t.leaf? = none) : t' = t
  leaf {t t' : Token} {e : Expr} (h : tokens t t') (hleaf : t.leaf? = some e) :
    ∃ e', t'.leaf? = some e' ∧ leaves e e'

section

variable {tokens : Token → Token → Prop} {leaves : Expr → Expr → Prop}

theorem exists_append_of_forall₂ {ts us vs : List Token}
    (h : List.Forall₂ tokens (ts ++ us) vs) :
    ∃ ts' us', vs = ts' ++ us' ∧ List.Forall₂ tokens ts ts' ∧ List.Forall₂ tokens us us' := by
  induction ts generalizing vs with
  | nil => exact ⟨[], vs, rfl, .nil, h⟩
  | cons t ts ih =>
      cases h with
      | cons ht h =>
          obtain ⟨ts', us', rfl, hts, hus⟩ := ih h
          exact ⟨_ :: ts', us', rfl, .cons ht hts, hus⟩

/-- A sign or a reserved word is kept. -/
theorem Exchanges.cons (ex : Exchanges tokens leaves) {us vs : List Token} {t : Token}
    (ht : t.leaf? = none) (h : List.Forall₂ tokens (t :: us) vs) :
    ∃ us', vs = t :: us' ∧ List.Forall₂ tokens us us' := by
  cases h with
  | cons htoken hus =>
      obtain rfl := ex.kept htoken ht
      exact ⟨_, rfl, hus⟩

theorem Exchanges.split (ex : Exchanges tokens leaves) {ts us vs : List Token} {t : Token}
    (ht : t.leaf? = none) (h : List.Forall₂ tokens (ts ++ t :: us) vs) :
    ∃ ts' us', vs = ts' ++ t :: us' ∧ List.Forall₂ tokens ts ts' ∧ List.Forall₂ tokens us us' := by
  obtain ⟨ts', rest, rfl, hts, hrest⟩ := exists_append_of_forall₂ h
  obtain ⟨us', rfl, hus⟩ := ex.cons ht hrest
  exact ⟨ts', us', rfl, hts, hus⟩

/-- What stands between two kept tokens is exchanged by itself. -/
theorem Exchanges.between (ex : Exchanges tokens leaves) {us vs : List Token}
    {opening close : Token} (hopening : opening.leaf? = none) (hclose : close.leaf? = none)
    (h : List.Forall₂ tokens (opening :: (us ++ [close])) vs) :
    ∃ us', vs = opening :: (us' ++ [close]) ∧ List.Forall₂ tokens us us' := by
  obtain ⟨ts', rfl, hts⟩ := ex.cons hopening h
  obtain ⟨us', rest, rfl, hus, hrest⟩ := ex.split hclose hts
  cases hrest
  exact ⟨us', rfl, hus⟩

theorem Exchanges.op (ex : Exchanges tokens leaves) (op : CompareOp) {us vs : List Token}
    (h : List.Forall₂ tokens (op.tokens ++ us) vs) :
    ∃ us', vs = op.tokens ++ us' ∧ List.Forall₂ tokens us us' := by
  cases op with
  | notWithin =>
      obtain ⟨ts', rfl, hts⟩ := ex.cons rfl h
      obtain ⟨us', rfl, hus⟩ := ex.cons rfl hts
      exact ⟨us', rfl, hus⟩
  | _ => exact ex.cons rfl h

/-- Tokens that derive a tree do so after leaves are exchanged, and the new tree is alike. -/
def Exchangeable (tokens : Token → Token → Prop) (leaves : Expr → Expr → Prop) (l : Level)
    (ts : List Token) (e : Expr) : Prop :=
  ∀ ts', List.Forall₂ tokens ts ts' → ∃ e', Derives l ts' e' ∧ Alike leaves e e'

/-- Both sides of an operator are exchanged by themselves. -/
theorem Exchanges.sides (ex : Exchanges tokens leaves) {l l' : Level} {ts us vs : List Token}
    {t : Token} {a b : Expr} (ht : t.leaf? = none) (left : Exchangeable tokens leaves l ts a)
    (right : Exchangeable tokens leaves l' us b) (h : List.Forall₂ tokens (ts ++ t :: us) vs) :
    ∃ ts' us' a' b', vs = ts' ++ t :: us' ∧ (Derives l ts' a' ∧ Alike leaves a a') ∧
      (Derives l' us' b' ∧ Alike leaves b b') := by
  obtain ⟨ts', us', rfl, hts, hus⟩ := ex.split ht h
  obtain ⟨a', hleft⟩ := left ts' hts
  obtain ⟨b', hright⟩ := right us' hus
  exact ⟨ts', us', a', b', rfl, hleft, hright⟩

mutual

theorem Derives.exchange (ex : Exchanges tokens leaves) : ∀ {l : Level} {ts : List Token}
    {e : Expr}, Derives l ts e → Exchangeable tokens leaves l ts e
  | _, _, _, .tighter next inner, _, h => by
    obtain ⟨e', d, alike⟩ := inner.exchange ex _ h
    exact ⟨e', .tighter next d, alike⟩
  | _, _, _, .or left right, _, h => by
    obtain ⟨_, _, _, _, rfl, ⟨dleft, hleft⟩, dright, hright⟩ :=
      ex.sides rfl (left.exchange ex) (right.exchange ex) h
    exact ⟨_, .or dleft dright, .or hleft hright⟩
  | _, _, _, .and left right, _, h => by
    obtain ⟨_, _, _, _, rfl, ⟨dleft, hleft⟩, dright, hright⟩ :=
      ex.sides rfl (left.exchange ex) (right.exchange ex) h
    exact ⟨_, .and dleft dright, .and hleft hright⟩
  | _, _, _, .not operand, _, h => by
    obtain ⟨us', rfl, hus⟩ := ex.cons rfl h
    obtain ⟨e', d, alike⟩ := operand.exchange ex us' hus
    exact ⟨_, .not d, .unary .not alike⟩
  | _, _, _, .comparison first more nonempty, _, h => by
    obtain ⟨ts', us', rfl, hts, hus⟩ := exists_append_of_forall₂ h
    obtain ⟨e', dfirst, hfirst⟩ := first.exchange ex ts' hts
    obtain ⟨links', dmore, hmore⟩ := more.exchange ex us' hus
    have nonempty' : links' ≠ [] := by
      rintro rfl
      cases hmore
      exact nonempty rfl
    exact ⟨_, .comparison dfirst dmore nonempty', .compare hfirst hmore⟩
  | _, _, _, .sum sign left right, _, h => by
    obtain ⟨_, _, _, _, rfl, ⟨dleft, hleft⟩, dright, hright⟩ :=
      ex.sides rfl (left.exchange ex) (right.exchange ex) h
    exact ⟨_, .sum sign dleft dright, .binary _ hleft hright⟩
  | _, _, _, .term sign left right, _, h => by
    obtain ⟨_, _, _, _, rfl, ⟨dleft, hleft⟩, dright, hright⟩ :=
      ex.sides rfl (left.exchange ex) (right.exchange ex) h
    exact ⟨_, .term sign dleft dright, .binary _ hleft hright⟩
  | _, _, _, .signed sign operand, _, h => by
    obtain ⟨us', rfl, hus⟩ := ex.cons rfl h
    obtain ⟨e', d, alike⟩ := operand.exchange ex us' hus
    exact ⟨_, .signed sign d, .unary _ alike⟩
  | _, _, _, .power base exponent, _, h => by
    obtain ⟨_, _, _, _, rfl, ⟨dbase, hbase⟩, dexponent, hexponent⟩ :=
      ex.sides rfl (base.exchange ex) (exponent.exchange ex) h
    exact ⟨_, .power dbase dexponent, .binary _ hbase hexponent⟩
  | _, _, _, .index target place, _, h => by
    obtain ⟨ts', rest, rfl, hts, hrest⟩ := exists_append_of_forall₂ h
    obtain ⟨us', rfl, hus⟩ := ex.between rfl rfl hrest
    obtain ⟨a', dtarget, htarget⟩ := target.exchange ex ts' hts
    obtain ⟨b', dplace, hplace⟩ := place.exchange ex us' hus
    exact ⟨_, .index dtarget dplace, .index htarget hplace⟩
  | _, _, _, .call callee sequence, _, h => by
    obtain ⟨ts', rest, rfl, hts, hrest⟩ := exists_append_of_forall₂ h
    obtain ⟨us', rfl, hus⟩ := ex.between rfl rfl hrest
    obtain ⟨e', dcallee, hcallee⟩ := callee.exchange ex ts' hts
    obtain ⟨args', dargs, hargs⟩ := sequence.exchange ex us' hus
    exact ⟨_, .call dcallee dargs, .call hcallee hargs⟩
  | _, _, _, .leaf hleaf, _, h => by
    cases h with
    | cons htoken hnil =>
        cases hnil
        obtain ⟨e', hleaf', alike⟩ := ex.leaf htoken hleaf
        exact ⟨e', .leaf hleaf', .leaf alike⟩
  | _, _, _, .parens inner, _, h => by
    obtain ⟨us', rfl, hus⟩ := ex.between rfl rfl h
    obtain ⟨e', d, alike⟩ := inner.exchange ex us' hus
    exact ⟨e', .parens d, alike⟩
  | _, _, _, .list sequence, _, h => by
    obtain ⟨us', rfl, hus⟩ := ex.between rfl rfl h
    obtain ⟨items', d, alike⟩ := sequence.exchange ex us' hus
    exact ⟨_, .list d, .list alike⟩

theorem DerivesLinks.exchange (ex : Exchanges tokens leaves) : ∀ {ts : List Token}
    {links : List Link}, DerivesLinks ts links → ∀ ts', List.Forall₂ tokens ts ts' →
      ∃ links', DerivesLinks ts' links' ∧ LinksAlike leaves links links'
  | _, _, .nil, _, h => by
    cases h
    exact ⟨[], .nil, .nil⟩
  | _, _, .cons op operand more, _, h => by
    obtain ⟨rest, rfl, hrest⟩ := ex.op op h
    obtain ⟨ts', us', rfl, hts, hus⟩ := exists_append_of_forall₂ hrest
    obtain ⟨e', doperand, hoperand⟩ := operand.exchange ex ts' hts
    obtain ⟨links', dmore, hmore⟩ := more.exchange ex us' hus
    exact ⟨_, .cons op doperand dmore, .cons op hoperand hmore⟩

theorem DerivesItems.exchange (ex : Exchanges tokens leaves) : ∀ {ts : List Token}
    {es : List Expr}, DerivesItems ts es → ∀ ts', List.Forall₂ tokens ts ts' →
      ∃ es', DerivesItems ts' es' ∧ AllAlike leaves es es'
  | _, _, .one item, _, h => by
    obtain ⟨e', d, alike⟩ := item.exchange ex _ h
    exact ⟨[e'], .one d, .cons alike .nil⟩
  | _, _, .more item rest, _, h => by
    obtain ⟨ts', us', rfl, hts, hus⟩ := ex.split rfl h
    obtain ⟨e', ditem, hitem⟩ := item.exchange ex ts' hts
    obtain ⟨es', drest, hrest⟩ := rest.exchange ex us' hus
    exact ⟨e' :: es', .more ditem drest, .cons hitem hrest⟩

theorem DerivesSequence.exchange (ex : Exchanges tokens leaves) : ∀ {ts : List Token}
    {es : List Expr}, DerivesSequence ts es → ∀ ts', List.Forall₂ tokens ts ts' →
      ∃ es', DerivesSequence ts' es' ∧ AllAlike leaves es es'
  | _, _, .nil, _, h => by
    cases h
    exact ⟨[], .nil, .nil⟩
  | _, _, .plain items, _, h => by
    obtain ⟨es', d, alike⟩ := items.exchange ex _ h
    exact ⟨es', .plain d, alike⟩
  | _, _, .trailing items, _, h => by
    obtain ⟨ts', us', rfl, hts, hus⟩ := ex.split rfl h
    cases hus
    obtain ⟨es', d, alike⟩ := items.exchange ex ts' hts
    exact ⟨es', .trailing d, alike⟩

end

/-- Exchanging leaves back and forth does not decide whether tokens can be read. -/
theorem Exchanges.parse_iff (ex : Exchanges tokens leaves)
    (back : Exchanges (fun t' t => tokens t t') fun _ _ => True) {ts ts' : List Token}
    (h : List.Forall₂ tokens ts ts') :
    ((∃ e', parse ts' = .ok e') ↔ ∃ e, parse ts = .ok e) ∧
      ∀ e e', parse ts = .ok e → parse ts' = .ok e' → Alike leaves e e' := by
  refine ⟨⟨?_, ?_⟩, ?_⟩
  · rintro ⟨e', he'⟩
    obtain ⟨e, d, -⟩ := (derives_of_parse he').exchange back ts h.flip
    exact ⟨e, parse_of_derives d⟩
  · rintro ⟨e, he⟩
    obtain ⟨e', d, -⟩ := (derives_of_parse he).exchange ex ts' h
    exact ⟨e', parse_of_derives d⟩
  · intro e e' he he'
    obtain ⟨e'', d, alike⟩ := (derives_of_parse he).exchange ex ts' h
    have heq : Except.ok e'' = Except.ok e' := (parse_of_derives d).symm.trans he'
    cases heq
    exact alike

end

end Expr

end Parlance
