import Mathlib.Data.List.Chain
import Parlance.Proofs.Expr.Brackets

/-!
# Tokens side by side

Three facts about tokens that derive a tree, whatever the tree: an operand is not followed by a leaf,
the last token ends an operand, and no comma stands outside brackets. Without a logical token, the
tree is a sum.
-/

namespace Parlance

/-- Whether a token can be the last one of an operand. -/
def Token.endsOperand : Token → Bool
  | .sign .closeParen => true
  | .sign .closeBracket => true
  | t => t.leaf?.isSome

theorem Token.endsOperand_of_leaf {t : Token} {e : Expr} (h : t.leaf? = some e) :
    t.endsOperand = true := by
  unfold endsOperand
  split <;> simp_all

theorem Token.leaf_of_endsOperand {t : Token} (h : t.endsOperand = false) : t.leaf? = none := by
  cases hleaf : t.leaf? with
  | none => rfl
  | some e =>
      rw [endsOperand_of_leaf hleaf] at h
      cases h

namespace Expr

open Brackets

/-! ## Operands and leaves -/

/-- No leaf stands directly behind an operand. -/
def Apart (ts : List Token) : Prop :=
  ts.IsChain fun t u => t.endsOperand = true → u.leaf? = none

/-- The last token ends an operand. -/
def Ends (ts : List Token) : Prop :=
  ∃ front t, ts = front ++ [t] ∧ t.endsOperand = true

variable {ts us : List Token} {t : Token}

theorem Apart.token (t : Token) : Apart [t] :=
  List.isChain_singleton t

theorem Apart.append (hts : Apart ts) (hus : Apart us) (hhead : ∀ u ∈ us.head?, u.leaf? = none) :
    Apart (ts ++ us) :=
  List.IsChain.append hts hus fun _ _ u hu _ => hhead u hu

theorem Apart.cons (ht : t.endsOperand = false) (hts : Apart ts) : Apart (t :: ts) := by
  refine List.IsChain.cons hts fun u _ hends => ?_
  rw [ht] at hends
  cases hends

/-- Both sides of an operator. -/
theorem Apart.joined (hts : Apart ts) (ht : t.endsOperand = false) (hus : Apart us) :
    Apart (ts ++ t :: us) := by
  refine hts.append (hus.cons ht) fun u hu => ?_
  cases hu
  exact Token.leaf_of_endsOperand ht

theorem Apart.group {opening closing : Token} (hopening : opening.endsOperand = false)
    (hclosing : closing.leaf? = none) (hts : Apart ts) : Apart (opening :: (ts ++ [closing])) := by
  refine (hts.append (.token closing) fun u hu => ?_).cons hopening
  cases hu
  exact hclosing

theorem Apart.operators (hts : ∀ t ∈ ts, t.endsOperand = false) (hus : Apart us) : Apart (ts ++ us) := by
  induction ts with
  | nil => exact hus
  | cons t ts ih =>
      rw [List.forall_mem_cons] at hts
      exact (ih hts.2).cons hts.1

theorem Ends.behind (h : Ends us) (ts : List Token) : Ends (ts ++ us) := by
  obtain ⟨front, t, rfl, ht⟩ := h
  exact ⟨ts ++ front, t, by simp, ht⟩

theorem Ends.followed (hts : Ends ts) (hus : us = [] ∨ Ends us) : Ends (ts ++ us) := by
  rcases hus with rfl | hus
  · rwa [List.append_nil]
  · exact hus.behind ts

theorem Ends.closed {closing : Token} (h : closing.endsOperand = true) (ts : List Token) :
    Ends (ts ++ [closing]) :=
  ⟨ts, closing, rfl, h⟩

theorem endsOperand_of_ops {ops : List (Sign × α)} {s : Sign} {op : α}
    (hops : (ops.all fun other => !(Token.sign other.1).endsOperand) = true) (h : (s, op) ∈ ops) :
    (Token.sign s).endsOperand = false := by
  simpa using List.all_eq_true.mp hops _ h

theorem endsOperand_of_compareOp (op : CompareOp) : ∀ t ∈ op.tokens, t.endsOperand = false := by
  cases op <;> simp [CompareOp.tokens, Token.leaf?, Token.endsOperand]

/-- A chain of comparisons starts with an operator. -/
theorem DerivesLinks.head_leaf {links : List Link} (h : DerivesLinks us links) :
    ∀ u ∈ us.head?, u.leaf? = none := by
  cases h with
  | nil => exact nofun
  | cons op operand more => cases op <;> rintro u ⟨⟩ <;> rfl

mutual

theorem Derives.apart : ∀ {l : Level} {ts : List Token} {e : Expr}, Derives l ts e → Apart ts
  | _, _, _, .tighter _ h => h.apart
  | _, _, _, .or left right => left.apart.joined rfl right.apart
  | _, _, _, .and left right => left.apart.joined rfl right.apart
  | _, _, _, .not operand => operand.apart.cons rfl
  | _, _, _, .comparison first more _ => first.apart.append more.apart more.head_leaf
  | _, _, _, .sum sign left right => left.apart.joined (endsOperand_of_ops rfl sign) right.apart
  | _, _, _, .term sign left right => left.apart.joined (endsOperand_of_ops rfl sign) right.apart
  | _, _, _, .signed sign operand => operand.apart.cons (endsOperand_of_ops rfl sign)
  | _, _, _, .power base exponent => base.apart.joined rfl exponent.apart
  | _, _, _, .index target place =>
    target.apart.append (place.apart.group rfl rfl) (by rintro u ⟨⟩; rfl)
  | _, _, _, .call callee sequence =>
    callee.apart.append (sequence.apart.group rfl rfl) (by rintro u ⟨⟩; rfl)
  | _, _, _, .leaf _ => .token _
  | _, _, _, .parens inner => inner.apart.group rfl rfl
  | _, _, _, .list sequence => sequence.apart.group rfl rfl

theorem DerivesLinks.apart : ∀ {ts : List Token} {links : List Link}, DerivesLinks ts links →
    Apart ts
  | _, _, .nil => .nil
  | _, _, .cons op operand more =>
    .operators (endsOperand_of_compareOp op) (operand.apart.append more.apart more.head_leaf)

theorem DerivesItems.apart : ∀ {ts : List Token} {es : List Expr}, DerivesItems ts es → Apart ts
  | _, _, .one item => item.apart
  | _, _, .more item rest => item.apart.joined rfl rest.apart

theorem DerivesSequence.apart : ∀ {ts : List Token} {es : List Expr}, DerivesSequence ts es →
    Apart ts
  | _, _, .nil => .nil
  | _, _, .plain items => items.apart
  | _, _, .trailing items => items.apart.joined rfl .nil

end

mutual

theorem Derives.ends : ∀ {l : Level} {ts : List Token} {e : Expr}, Derives l ts e → Ends ts
  | _, _, _, .tighter _ h => h.ends
  | _, _, _, .or _ right => (right.ends.behind [_]).behind _
  | _, _, _, .and _ right => (right.ends.behind [_]).behind _
  | _, _, _, .not operand => operand.ends.behind [_]
  | _, _, _, .comparison first more _ => first.ends.followed more.ends
  | _, _, _, .sum _ _ right => (right.ends.behind [_]).behind _
  | _, _, _, .term _ _ right => (right.ends.behind [_]).behind _
  | _, _, _, .signed _ operand => operand.ends.behind [_]
  | _, _, _, .power _ exponent => (exponent.ends.behind [_]).behind _
  | _, _, _, .index _ _ => ((Ends.closed rfl _).behind [_]).behind _
  | _, _, _, .call _ _ => ((Ends.closed rfl _).behind [_]).behind _
  | _, _, _, .leaf h => ⟨[], _, rfl, Token.endsOperand_of_leaf h⟩
  | _, _, _, .parens _ => (Ends.closed rfl _).behind [_]
  | _, _, _, .list _ => (Ends.closed rfl _).behind [_]

theorem DerivesLinks.ends : ∀ {ts : List Token} {links : List Link}, DerivesLinks ts links →
    ts = [] ∨ Ends ts
  | _, _, .nil => .inl rfl
  | _, _, .cons _ operand more => .inr ((operand.ends.followed more.ends).behind _)

end

/-! ## Commas -/

/-- No comma stands outside brackets. -/
def Uncut (ts : List Token) : Prop :=
  ∀ front back, ts = front ++ .sign .comma :: back → ¬ Nested front

namespace Uncut

theorem token (h : t ≠ .sign .comma) : Uncut [t] := by
  intro front back place
  cases front with
  | nil => exact absurd (List.cons.inj place).1 h
  | cons first front => exact absurd (congrArg List.length place) (by simp)

theorem append (nested : Nested ts) (hts : Uncut ts) (hus : Uncut us) : Uncut (ts ++ us) := by
  intro front back place hfront
  rcases cut_cases place with ⟨more, rfl, -⟩ | ⟨more, rfl, hmore⟩
  · exact hts front more rfl hfront
  · exact hus more back hmore (hfront.of_append_left nested)

theorem of_append_left (h : Uncut (ts ++ us)) : Uncut ts := by
  rintro front back rfl
  exact h front (back ++ us) (by simp)

theorem of_append_right (nested : Nested ts) (h : Uncut (ts ++ us)) : Uncut us := by
  rintro front back rfl hfront
  exact h (ts ++ front) back (by simp) (nested.append hfront)

theorem cons (hbracket : t.bracket = .neither) (ht : t ≠ .sign .comma) (hts : Uncut ts) :
    Uncut (t :: ts) :=
  (token ht).append ((Nested.cons_iff hbracket).mpr .nil) hts

/-- Both sides of an operator. -/
theorem joined (nested : Nested ts) (hts : Uncut ts) (hbracket : t.bracket = .neither)
    (ht : t ≠ .sign .comma) (hus : Uncut us) : Uncut (ts ++ t :: us) :=
  hts.append nested (hus.cons hbracket ht)

/-- Behind an opening bracket, nothing is outside before the closing one. -/
theorem group {opening closing : Token} {close : Sign} (hopening : opening.bracket = .opens close)
    (hclosing : closing ≠ .sign .comma) (nested : Nested ts) :
    Uncut (opening :: (ts ++ [closing])) := by
  intro front back place hfront
  cases front with
  | nil =>
      obtain ⟨rfl, -⟩ := List.cons.inj place
      cases hopening
  | cons first front =>
      obtain ⟨rfl, hplace⟩ := List.cons.inj place
      rw [← List.nil_append (opening :: front)] at hfront
      obtain ⟨inner, closing', rest, rfl, hinner, hcloses⟩ := hfront.exists_close hopening
      rcases List.eq_nil_or_concat back with rfl | ⟨back, last, rfl⟩
      · obtain ⟨-, hlast⟩ := List.append_inj' hplace rfl
        exact hclosing (List.cons.inj hlast).1
      · have hlast : ts ++ [closing] =
            (inner ++ closing' :: (rest ++ .sign .comma :: back)) ++ [last] := by
          rw [hplace]
          simp
        obtain ⟨rfl, -⟩ := List.append_inj' hlast rfl
        exact hinner.not_closes hcloses nested

end Uncut

theorem ne_comma_of_leaf {e : Expr} (h : t.leaf? = some e) : t ≠ .sign .comma := by
  rintro rfl
  cases h

theorem ne_comma_of_ops {ops : List (Sign × α)} {s : Sign} {op : α}
    (hops : (ops.all fun other => other.1 != .comma) = true) (h : (s, op) ∈ ops) :
    Token.sign s ≠ .sign .comma := by
  simpa using List.all_eq_true.mp hops _ h

theorem Uncut.operators (op : CompareOp) : Nested op.tokens ∧ Uncut op.tokens := by
  refine ⟨(Grouped.tokens op.bracket_tokens).nested, ?_⟩
  intro front back place
  have hcomma : .sign .comma ∈ op.tokens := place ▸ List.mem_append_right _ List.mem_cons_self
  cases op <;> simp [CompareOp.tokens] at hcomma

mutual

theorem Derives.uncut : ∀ {l : Level} {ts : List Token} {e : Expr}, Derives l ts e → Uncut ts
  | _, _, _, .tighter _ h => h.uncut
  | _, _, _, .or left right => left.uncut.joined left.nested rfl nofun right.uncut
  | _, _, _, .and left right => left.uncut.joined left.nested rfl nofun right.uncut
  | _, _, _, .not operand => operand.uncut.cons rfl nofun
  | _, _, _, .comparison first more _ => first.uncut.append first.nested more.uncut
  | _, _, _, .sum sign left right =>
    left.uncut.joined left.nested (bracket_of_sumOps sign)
      (ne_comma_of_ops rfl sign) right.uncut
  | _, _, _, .term sign left right =>
    left.uncut.joined left.nested (bracket_of_termOps sign)
      (ne_comma_of_ops rfl sign) right.uncut
  | _, _, _, .signed sign operand =>
    operand.uncut.cons (bracket_of_signOps sign) (ne_comma_of_ops rfl sign)
  | _, _, _, .power base exponent => base.uncut.joined base.nested rfl nofun exponent.uncut
  | _, _, _, .index target place =>
    target.uncut.append target.nested (.group rfl nofun place.nested)
  | _, _, _, .call callee sequence =>
    callee.uncut.append callee.nested (.group rfl nofun sequence.grouped.nested)
  | _, _, _, .leaf h => .token (ne_comma_of_leaf h)
  | _, _, _, .parens inner => .group rfl nofun inner.nested
  | _, _, _, .list sequence => .group rfl nofun sequence.grouped.nested

theorem DerivesLinks.uncut : ∀ {ts : List Token} {links : List Link}, DerivesLinks ts links →
    Uncut ts
  | _, _, .nil => fun _ _ place => absurd (congrArg List.length place) (by simp)
  | _, _, .cons op operand more =>
    (Uncut.operators op).2.append (Uncut.operators op).1
      (operand.uncut.append operand.nested more.uncut)

end

/-- Tokens without a comma outside brackets derive a sequence only if they derive its one item. -/
theorem DerivesSequence.single {es : List Expr} (h : DerivesSequence ts es) (hne : ts ≠ [])
    (huncut : Uncut ts) : ∃ e, Derives .or ts e := by
  cases h with
  | nil => exact absurd rfl hne
  | plain items =>
      cases items with
      | one item => exact ⟨_, item⟩
      | more item rest => exact absurd item.nested (huncut _ _ rfl)
  | trailing items => exact absurd items.grouped.nested (huncut _ _ rfl)

/-! ## Sums -/

/-- Without a logical token, a tree is a sum. -/
theorem Derives.sum_of_plain {e : Expr} (h : Derives .or ts e)
    (plain : ts.any Token.isLogical = false) : Derives .sum ts e := by
  cases h with
  | or _ _ => simp [Token.isLogical] at plain
  | tighter next h =>
      cases next
      cases h with
      | and _ _ => simp [Token.isLogical] at plain
      | tighter next h =>
          cases next
          cases h with
          | not _ => simp [Token.isLogical] at plain
          | tighter next h =>
              cases next
              cases h with
              | comparison _ more nonempty =>
                  cases more with
                  | nil => exact absurd rfl nonempty
                  | cons op _ _ => cases op <;> simp [CompareOp.tokens, Token.isLogical] at plain
              | tighter next h =>
                  cases next
                  exact h

end Expr

end Parlance
