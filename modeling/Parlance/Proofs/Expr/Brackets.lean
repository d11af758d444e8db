import Parlance.Proofs.Expr.Completeness

/-!
# Nested brackets

Reading from left to right, an opening bracket adds the closing one that it awaits, and a closing
bracket has to be the one awaited next. Brackets are nested if nothing is awaited at the end. Tokens
that derive a tree are nested, and what stands between an opening bracket and its closing one derives
a sequence by itself.
-/

namespace Parlance

/-- What a token does to the brackets around it. -/
inductive Bracket where
  | opens (close : Sign)
  | closes (close : Sign)
  | neither
  deriving DecidableEq

def Token.bracket : Token → Bracket
  | .sign .openParen => .opens .closeParen
  | .sign .openBracket => .opens .closeBracket
  | .sign .closeParen => .closes .closeParen
  | .sign .closeBracket => .closes .closeBracket
  | _ => .neither

namespace Brackets

/-- The closing brackets that are awaited behind a token, the next one first. A closing bracket that
is not the next one has no place. -/
def step : List Sign → Bracket → Option (List Sign)
  | awaited, .opens close => some (close :: awaited)
  | [], .closes _ => none
  | next :: awaited, .closes close => if close = next then some awaited else none
  | awaited, .neither => some awaited

/-- The closing brackets that are awaited behind some tokens. -/
def after (awaited : List Sign) (ts : List Token) : Option (List Sign) :=
  ts.foldlM (fun awaited t => step awaited t.bracket) awaited

/-- Every closing bracket closes the bracket that was opened last, and none is left open. -/
def Nested (ts : List Token) : Prop :=
  after [] ts = some []

instance (ts : List Token) : Decidable (Nested ts) :=
  inferInstanceAs (Decidable (after [] ts = some []))

variable {awaited awaited' : List Sign} {ts us : List Token} {t : Token}

@[simp] theorem after_nil : after awaited [] = some awaited :=
  rfl

theorem after_cons :
    after awaited (t :: ts) = (step awaited t.bracket).bind fun awaited => after awaited ts := by
  simp [after, List.foldlM_cons]

theorem after_append :
    after awaited (ts ++ us) = (after awaited ts).bind fun awaited => after awaited us := by
  simp [after, List.foldlM_append]

theorem after_neither (h : t.bracket = .neither) : after awaited (t :: ts) = after awaited ts := by
  rw [after_cons, h, step, Option.bind_some]

theorem after_opens {close : Sign} (h : t.bracket = .opens close) :
    after awaited (t :: ts) = after (close :: awaited) ts := by
  rw [after_cons, h, step, Option.bind_some]

theorem after_closes {close : Sign} (h : t.bracket = .closes close) :
    after (close :: awaited) (t :: ts) = after awaited ts := by
  rw [after_cons, h, step, if_pos rfl, Option.bind_some]

theorem after_closes_nil {close : Sign} (h : t.bracket = .closes close) :
    after [] (t :: ts) = none := by
  rw [after_cons, h, step, Option.bind_none]

theorem eq_of_after_closes {close next : Sign} {left : List Sign} (h : t.bracket = .closes close)
    (hafter : after (next :: awaited) (t :: ts) = some left) :
    close = next ∧ after awaited ts = some left := by
  rw [after_cons, h, step] at hafter
  split at hafter
  · next heq => exact ⟨heq, hafter⟩
  · cases hafter

theorem exists_after_of_append {left : List Sign} (h : after awaited (ts ++ us) = some left) :
    ∃ middle, after awaited ts = some middle ∧ after middle us = some left := by
  rw [after_append] at h
  exact Option.bind_eq_some_iff.mp h

theorem step_frame {b : Bracket} (h : step awaited b = some awaited') (outer : List Sign) :
    step (awaited ++ outer) b = some (awaited' ++ outer) := by
  cases b with
  | opens close =>
      cases h
      rfl
  | neither =>
      cases h
      cases awaited <;> cases outer <;> rfl
  | closes close =>
      cases awaited with
      | nil => cases h
      | cons next awaited =>
          simp only [step] at h
          split at h <;> cases h
          next heq => rw [List.cons_append, step, if_pos heq]

/-- What is awaited from further out does not matter where nothing closes it. -/
theorem after_frame (h : after awaited ts = some awaited') (outer : List Sign) :
    after (awaited ++ outer) ts = some (awaited' ++ outer) := by
  induction ts generalizing awaited with
  | nil =>
      cases h
      rfl
  | cons t ts ih =>
      rw [after_cons] at h ⊢
      obtain ⟨middle, hstep, hafter⟩ := Option.bind_eq_some_iff.mp h
      rw [step_frame hstep outer, Option.bind_some]
      exact ih hafter

/-- Either tokens close nothing that is awaited from further out, or one of them is the first to. -/
theorem after_cases {inner outer left : List Sign} {close : Sign}
    (h : after (inner ++ close :: outer) ts = some left) :
    (∃ inner', after inner ts = some inner' ∧ left = inner' ++ close :: outer) ∨
      ∃ front t back, ts = front ++ t :: back ∧ t.bracket = .closes close ∧
        after inner front = some [] ∧ after outer back = some left := by
  induction ts generalizing inner with
  | nil =>
      cases h
      exact .inl ⟨inner, rfl, rfl⟩
  | cons t ts ih =>
      -- A token that leaves the outer ones awaited is the first of those in front.
      have further (inner' : List Sign) (hstep : step inner t.bracket = some inner')
          (h : after (inner' ++ close :: outer) ts = some left) :
          (∃ inner'', after inner (t :: ts) = some inner'' ∧ left = inner'' ++ close :: outer) ∨
            ∃ front u back, t :: ts = front ++ u :: back ∧ u.bracket = .closes close ∧
              after inner front = some [] ∧ after outer back = some left := by
        rcases ih h with ⟨inner'', hinner, hleft⟩ | ⟨front, u, back, rfl, hu, hfront, hback⟩
        · refine .inl ⟨inner'', ?_, hleft⟩
          rw [after_cons, hstep, Option.bind_some, hinner]
        · refine .inr ⟨t :: front, u, back, rfl, hu, ?_, hback⟩
          rw [after_cons, hstep, Option.bind_some, hfront]
      cases hbracket : t.bracket with
      | neither =>
          rw [after_neither hbracket] at h
          refine further inner ?_ h
          rw [hbracket, step]
      | opens other =>
          rw [after_opens hbracket] at h
          refine further (other :: inner) ?_ h
          rw [hbracket, step]
      | closes other =>
          cases inner with
          | nil =>
              obtain ⟨rfl, hafter⟩ := eq_of_after_closes hbracket h
              exact .inr ⟨[], t, ts, rfl, hbracket, rfl, hafter⟩
          | cons next inner =>
              obtain ⟨rfl, hafter⟩ := eq_of_after_closes hbracket h
              refine further inner ?_ hafter
              rw [hbracket, step, if_pos rfl]

/-- A token among two rows of tokens stands in the first or in the second. -/
theorem cut_cases {front back : List Token} (h : ts ++ us = front ++ t :: back) :
    (∃ more, ts = front ++ t :: more ∧ back = more ++ us) ∨
      ∃ more, front = ts ++ more ∧ us = more ++ t :: back := by
  rcases List.append_eq_append_iff.mp h with hbehind | ⟨more, hts, hback⟩
  · exact .inr hbehind
  · cases more with
    | nil => exact .inr ⟨[], by simpa using hts.symm, hback.symm⟩
    | cons u more =>
        obtain ⟨rfl, hmore⟩ := List.cons.inj hback
        exact .inl ⟨more, hts, hmore⟩

/-- Two cuts at a token are the same one if neither stands in front of the other. -/
theorem cut_unique {ts' us' : List Token} {t' : Token} (h : ts ++ t :: us = ts' ++ t' :: us')
    (hts : ∀ more, ts ≠ ts' ++ t' :: more) (hts' : ∀ more, ts' ≠ ts ++ t :: more) :
    ts = ts' ∧ t = t' ∧ us = us' := by
  rcases cut_cases h with ⟨more, hbefore, -⟩ | ⟨more, hbehind, hmore⟩
  · exact absurd hbefore (hts more)
  · cases more with
    | nil =>
        obtain ⟨rfl, rfl⟩ := List.cons.inj hmore
        exact ⟨by simpa using hbehind.symm, rfl, rfl⟩
    | cons u more =>
        obtain ⟨rfl, -⟩ := List.cons.inj hmore
        exact absurd hbehind (hts' more)

namespace Nested

theorem after_eq (h : Nested ts) (awaited : List Sign) : after awaited ts = some awaited :=
  after_frame h awaited

theorem nil : Nested [] :=
  rfl

theorem append (hts : Nested ts) (hus : Nested us) : Nested (ts ++ us) := by
  rw [Nested, after_append, hts, Option.bind_some]
  exact hus

theorem of_append_left (h : Nested (ts ++ us)) (hts : Nested ts) : Nested us := by
  rw [Nested, after_append, hts, Option.bind_some] at h
  exact h

theorem cons_iff (h : t.bracket = .neither) : Nested (t :: ts) ↔ Nested ts := by
  rw [Nested, after_neither h, Nested]

/-- A pair of brackets around nested tokens. -/
theorem group {opening closing : Token} {close : Sign} (hopening : opening.bracket = .opens close)
    (hclosing : closing.bracket = .closes close) (h : Nested ts) :
    Nested (opening :: (ts ++ [closing])) := by
  rw [Nested, after_opens hopening, after_append, h.after_eq, Option.bind_some,
    after_closes hclosing, after_nil]

/-- A closing bracket closes nothing behind nested tokens. -/
theorem not_closes {close : Sign} (hts : Nested ts) (ht : t.bracket = .closes close) :
    ¬ Nested (ts ++ t :: us) := by
  intro h
  rw [Nested, after_append, hts, Option.bind_some, after_closes_nil ht] at h
  cases h

/-- The closing bracket of a group is found in one way only. -/
theorem unique {ts' us' : List Token} {t' : Token} {close close' : Sign} (hts : Nested ts)
    (hts' : Nested ts') (ht : t.bracket = .closes close) (ht' : t'.bracket = .closes close')
    (h : ts ++ t :: us = ts' ++ t' :: us') : ts = ts' ∧ t = t' ∧ us = us' := by
  refine cut_unique h ?_ ?_
  · rintro more rfl
    exact hts'.not_closes ht' hts
  · rintro more rfl
    exact hts.not_closes ht hts'

/-- An opening bracket among nested tokens has its closing one behind it. -/
theorem exists_close {opening : Token} {close : Sign} (hopening : opening.bracket = .opens close)
    {front back : List Token} (h : Nested (front ++ opening :: back)) :
    ∃ inner closing rest, back = inner ++ closing :: rest ∧ Nested inner ∧
      closing.bracket = .closes close := by
  obtain ⟨awaited, -, hback⟩ := exists_after_of_append h
  rw [after_opens hopening, ← List.nil_append (close :: awaited)] at hback
  rcases after_cases hback with ⟨inner, -, heq⟩ | ⟨inner, t, rest, rfl, ht, hinner, -⟩
  · exact absurd (congrArg List.length heq) (by simp)
  · exact ⟨inner, t, rest, rfl, hinner, ht⟩

end Nested

/-- The bracket that is awaited next was opened, and everything since then is closed. -/
theorem exists_open {close : Sign} {outer : List Sign} (h : after [] ts = some (close :: outer)) :
    ∃ front opening back, ts = front ++ opening :: back ∧ opening.bracket = .opens close ∧
      after [] front = some outer ∧ Nested back := by
  induction hlength : ts.length using Nat.strongRecOn generalizing ts close outer with
  | ind length ih =>
      subst hlength
      rcases List.eq_nil_or_concat ts with rfl | ⟨front, t, rfl⟩
      · cases h
      · rw [List.concat_eq_append] at h ih ⊢
        have hshorter : front.length < (front ++ [t]).length := by simp
        obtain ⟨middle, hfront, hlast⟩ := exists_after_of_append h
        rw [after_cons] at hlast
        cases hbracket : t.bracket with
        | neither =>
            rw [hbracket] at hlast
            cases hlast
            obtain ⟨front', opening, back, rfl, hopening, hfront', hback⟩ :=
              ih _ hshorter hfront rfl
            refine ⟨front', opening, back ++ [t], by simp, hopening, hfront', ?_⟩
            exact hback.append ((Nested.cons_iff hbracket).mpr .nil)
        | opens other =>
            rw [hbracket] at hlast
            cases hlast
            exact ⟨front, t, [], rfl, hbracket, hfront, .nil⟩
        | closes other =>
            -- What is closed here was opened before, behind the bracket that is looked for.
            cases middle with
            | nil =>
                rw [hbracket] at hlast
                cases hlast
            | cons next middle =>
                rw [← after_cons] at hlast
                obtain ⟨rfl, hrest⟩ := eq_of_after_closes hbracket hlast
                cases hrest
                obtain ⟨front', opening', back', rfl, hopening', hfront', hback'⟩ :=
                  ih _ hshorter hfront rfl
                have hshorter' : front'.length < (front' ++ opening' :: back' ++ [t]).length := by
                  simp only [List.length_append, List.length_cons]
                  omega
                obtain ⟨front'', opening, back, rfl, hopening, hfront'', hback⟩ :=
                  ih _ hshorter' hfront' rfl
                refine ⟨front'', opening, back ++ opening' :: (back' ++ [t]), by simp, hopening,
                  hfront'', ?_⟩
                exact hback.append (hback'.group hopening' hbracket)

theorem eq_openParen (h : t.bracket = .opens .closeParen) : t = .sign .openParen := by
  unfold Token.bracket at h
  split at h <;> cases h
  rfl

theorem eq_closeParen (h : t.bracket = .closes .closeParen) : t = .sign .closeParen := by
  unfold Token.bracket at h
  split at h <;> cases h
  rfl

end Brackets

/-! ## Trees -/

theorem Token.bracket_of_leaf {t : Token} {e : Expr} (h : t.leaf? = some e) :
    t.bracket = .neither := by
  unfold Token.leaf? at h
  split at h <;> first | rfl | cases h

theorem CompareOp.bracket_tokens (op : CompareOp) : ∀ t ∈ op.tokens, t.bracket = .neither := by
  cases op <;> simp [CompareOp.tokens, Token.bracket]

namespace Expr

open Brackets

/-- Tokens with nested brackets, in which every group derives a sequence by itself. -/
structure Grouped (ts : List Token) : Prop where
  nested : Nested ts
  groups {front inner back : List Token} {opening closing : Token} {close : Sign}
    (place : ts = front ++ opening :: (inner ++ closing :: back))
    (hopening : opening.bracket = .opens close) (hinner : Nested inner)
    (hclosing : closing.bracket = .closes close) : ∃ args, DerivesSequence inner args

namespace Grouped

variable {ts us : List Token} {t : Token}

theorem nil : Grouped [] :=
  ⟨.nil, fun place => absurd (congrArg List.length place) (by simp)⟩

theorem append (hts : Grouped ts) (hus : Grouped us) : Grouped (ts ++ us) := by
  refine ⟨hts.nested.append hus.nested, ?_⟩
  intro front inner back opening closing close place hopening hinner hclosing
  rcases cut_cases place with ⟨more, rfl, hback⟩ | ⟨more, rfl, hmore⟩
  · -- The group was opened in the front part, so it is closed there.
    obtain ⟨inner', closing', rest, rfl, hinner', hclosing'⟩ := hts.nested.exists_close hopening
    rw [List.append_assoc, List.cons_append] at hback
    obtain ⟨rfl, rfl, -⟩ := hinner.unique hinner' hclosing hclosing' hback
    exact hts.groups rfl hopening hinner hclosing
  · exact hus.groups hmore hopening hinner hclosing

theorem token (h : t.bracket = .neither) : Grouped [t] := by
  refine ⟨(Nested.cons_iff h).mpr .nil, fun place => ?_⟩
  exact absurd (congrArg List.length place) (by simp; omega)

theorem tokens (h : ∀ t ∈ ts, t.bracket = .neither) : Grouped ts := by
  induction ts with
  | nil => exact .nil
  | cons t ts ih =>
      rw [List.forall_mem_cons] at h
      exact (token h.1).append (ih h.2)

theorem cons (ht : t.bracket = .neither) (hts : Grouped ts) : Grouped (t :: ts) :=
  (token ht).append hts

/-- Both sides of an operator. -/
theorem joined (hts : Grouped ts) (ht : t.bracket = .neither) (hus : Grouped us) :
    Grouped (ts ++ t :: us) :=
  hts.append (hus.cons ht)

/-- A pair of brackets around a sequence. -/
theorem group {opening closing : Token} {close : Sign} {args : List Expr}
    (hopening : opening.bracket = .opens close) (hclosing : closing.bracket = .closes close)
    (hts : Grouped ts) (derived : DerivesSequence ts args) :
    Grouped (opening :: (ts ++ [closing])) := by
  refine ⟨hts.nested.group hopening hclosing, ?_⟩
  intro front inner back opening' closing' close' place hopening' hinner hclosing'
  cases front with
  | nil =>
      obtain ⟨-, hplace⟩ := List.cons.inj place
      obtain ⟨rfl, -, -⟩ := hts.nested.unique hinner hclosing hclosing' hplace
      exact ⟨args, derived⟩
  | cons first front =>
      obtain ⟨-, hplace⟩ := List.cons.inj place
      rcases List.eq_nil_or_concat back with rfl | ⟨back, last, rfl⟩
      · -- The last bracket would close an inner group and not the outer one.
        have hlast : ts ++ [closing] = (front ++ opening' :: inner) ++ [closing'] := by
          rw [hplace]
          simp
        obtain ⟨rfl, -⟩ := List.append_inj' hlast rfl
        obtain ⟨inner', closing'', rest, hinner', hnested, hcloses⟩ :=
          hts.nested.exists_close hopening'
        rw [hinner'] at hinner
        exact absurd hinner (hnested.not_closes hcloses)
      · have hlast : ts ++ [closing] =
            (front ++ opening' :: (inner ++ closing' :: back)) ++ [last] := by
          rw [hplace]
          simp
        obtain ⟨hts', -⟩ := List.append_inj' hlast rfl
        exact hts.groups hts' hopening' hinner hclosing'

end Grouped

theorem bracket_of_sumOps {s : Sign} {op : BinaryOp} (h : (s, op) ∈ sumOps) :
    (Token.sign s).bracket = .neither := by
  simp only [sumOps, List.mem_cons, Prod.mk.injEq, List.not_mem_nil, or_false] at h
  rcases h with ⟨rfl, rfl⟩ | ⟨rfl, rfl⟩ <;> rfl

theorem bracket_of_termOps {s : Sign} {op : BinaryOp} (h : (s, op) ∈ termOps) :
    (Token.sign s).bracket = .neither := by
  simp only [termOps, List.mem_cons, Prod.mk.injEq, List.not_mem_nil, or_false] at h
  rcases h with ⟨rfl, rfl⟩ | ⟨rfl, rfl⟩ | ⟨rfl, rfl⟩ | ⟨rfl, rfl⟩ <;> rfl

theorem bracket_of_signOps {s : Sign} {op : UnaryOp} (h : (s, op) ∈ signOps) :
    (Token.sign s).bracket = .neither := by
  simp only [signOps, List.mem_cons, Prod.mk.injEq, List.not_mem_nil, or_false] at h
  rcases h with ⟨rfl, rfl⟩ | ⟨rfl, rfl⟩ <;> rfl

theorem Derives.sequence {ts : List Token} {e : Expr} (h : Derives .or ts e) :
    DerivesSequence ts [e] :=
  .plain (.one h)

mutual

theorem Derives.grouped : ∀ {l : Level} {ts : List Token} {e : Expr}, Derives l ts e → Grouped ts
  | _, _, _, .tighter _ h => h.grouped
  | _, _, _, .or left right => left.grouped.joined rfl right.grouped
  | _, _, _, .and left right => left.grouped.joined rfl right.grouped
  | _, _, _, .not operand => operand.grouped.cons rfl
  | _, _, _, .comparison first more _ => first.grouped.append more.grouped
  | _, _, _, .sum sign left right => left.grouped.joined (bracket_of_sumOps sign) right.grouped
  | _, _, _, .term sign left right => left.grouped.joined (bracket_of_termOps sign) right.grouped
  | _, _, _, .signed sign operand => operand.grouped.cons (bracket_of_signOps sign)
  | _, _, _, .power base exponent => base.grouped.joined rfl exponent.grouped
  | _, _, _, .index target place =>
    target.grouped.append (.group rfl rfl place.grouped place.sequence)
  | _, _, _, .call callee sequence =>
    callee.grouped.append (.group rfl rfl sequence.grouped sequence)
  | _, _, _, .leaf h => .token (Token.bracket_of_leaf h)
  | _, _, _, .parens inner => .group rfl rfl inner.grouped inner.sequence
  | _, _, _, .list sequence => .group rfl rfl sequence.grouped sequence

theorem DerivesLinks.grouped : ∀ {ts : List Token} {links : List Link}, DerivesLinks ts links →
    Grouped ts
  | _, _, .nil => .nil
  | _, _, .cons op operand more =>
    (Grouped.tokens op.bracket_tokens).append (operand.grouped.append more.grouped)

theorem DerivesItems.grouped : ∀ {ts : List Token} {es : List Expr}, DerivesItems ts es →
    Grouped ts
  | _, _, .one item => item.grouped
  | _, _, .more item rest => item.grouped.joined rfl rest.grouped

theorem DerivesSequence.grouped : ∀ {ts : List Token} {es : List Expr}, DerivesSequence ts es →
    Grouped ts
  | _, _, .nil => .nil
  | _, _, .plain items => items.grouped
  | _, _, .trailing items => items.grouped.joined rfl .nil

end

theorem Derives.nested {l : Level} {ts : List Token} {e : Expr} (h : Derives l ts e) : Nested ts :=
  h.grouped.nested

end Expr

end Parlance
