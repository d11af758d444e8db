import Parlance.Proofs.Expr.Characters
import Parlance.Proofs.Expr.Printing

/-!
# Letters that a tree keeps

Some letters stand in names, literal texts and reserved words only: no sign, number or escape is
written with them. How many of them a text has can be read off its tokens, and from the tree that is
read from the tokens.
-/

namespace Parlance

/-- Whether a letter is counted. Every word that is compared with has more of these letters than the
operator that it stands for. -/
def Text.isTraced (c : Char) : Bool :=
  c == 'h' || c == 'o' || c == 's'

/-- How many of the counted letters a text has. -/
def Text.traces (text : List Char) : Nat :=
  text.countP isTraced

namespace Text

@[simp] theorem traces_append (front back : List Char) :
    traces (front ++ back) = traces front + traces back :=
  List.countP_append

theorem traces_cons (c : Char) (text : List Char) : traces (c :: text) = traces [c] + traces text :=
  traces_append [c] text

theorem traces_eq_zero {text : List Char} (h : ∀ c ∈ text, isTraced c = false) : traces text = 0 :=
  List.countP_eq_zero.mpr fun c hc => by simp [h c hc]

/-- What passes a check that no counted letter passes is not counted. -/
theorem isTraced_eq_false {p : Char → Bool} (h : ['h', 'o', 's'].any p = false) {c : Char}
    (hc : p c = true) : isTraced c = false := by
  simp only [List.any_cons, List.any_nil, Bool.or_eq_false_iff] at h
  obtain ⟨hh, ho, hs, -⟩ := h
  simp only [isTraced, Bool.or_eq_false_iff, beq_eq_false_iff_ne]
  refine ⟨⟨?_, ?_⟩, ?_⟩
  · rintro rfl
    exact Bool.false_ne_true (hh.symm.trans hc)
  · rintro rfl
    exact Bool.false_ne_true (ho.symm.trans hc)
  · rintro rfl
    exact Bool.false_ne_true (hs.symm.trans hc)

end Text

/-- How many of the counted letters a value is written with. -/
def Value.traces : Value → Nat
  | .str s => Text.traces s.toList
  | .none => Text.traces Keyword.nothing.spelling.toList
  | .bool false => Text.traces Keyword.no.spelling.toList
  | _ => 0

/-- How many of the counted letters a token is written with. -/
def Token.traces : Token → Nat
  | .str s => Text.traces s.toList
  | .name n => Text.traces n.toList
  | .keyword k => Text.traces k.spelling.toList
  | .value v => v.traces
  | _ => 0

/-- How many of the counted letters some tokens are written with. -/
def Token.allTraces : List Token → Nat
  | [] => 0
  | t :: ts => t.traces + allTraces ts

namespace Token

@[simp] theorem allTraces_nil : allTraces [] = 0 := rfl

@[simp] theorem allTraces_cons (t : Token) (ts : List Token) :
    allTraces (t :: ts) = t.traces + allTraces ts :=
  rfl

@[simp] theorem allTraces_append (ts us : List Token) :
    allTraces (ts ++ us) = allTraces ts + allTraces us := by
  induction ts with
  | nil => simp
  | cons t ts ih => simp [ih, Nat.add_assoc]

@[simp] theorem traces_sign (s : Sign) : (Token.sign s).traces = 0 := rfl

@[simp] theorem allTraces_enclosed (ts : List Token) : allTraces (enclosed ts) = allTraces ts := by
  simp [enclosed]

end Token

/-! ## From texts to tokens -/

namespace Lexeme

theorem traces_unescape (c : Char) : Text.traces (unescape c) = Text.traces ['\\', c] := by
  unfold unescape
  split <;> rfl

theorem Closes.traces_eq {quote : Char} {content spelling : List Char}
    (h : Closes quote content spelling) (hquote : isQuote quote = true) :
    Text.traces spelling = Text.traces content := by
  induction h with
  | close => exact Text.traces_eq_zero (by simpa using Text.isTraced_eq_false rfl hquote)
  | escape c more ih =>
      rw [Text.traces_append, traces_unescape, ← ih]
      exact Text.traces_append ['\\', c] _
  | @plain c content spelling not_slash not_quote more ih =>
      rw [Text.traces_cons c spelling, Text.traces_cons c content, ih]

theorem traces_numberToken (isWhole : Bool) (text : List Char) :
    (numberToken isWhole text).traces = 0 := by
  unfold numberToken
  dsimp only
  split <;> rfl

end Lexeme

theorem Keyword.traces_of_spelling {spelling : String} {k : Keyword}
    (h : Keyword.ofSpelling? spelling = some k) :
    Text.traces spelling.toList = Text.traces k.spelling.toList := by
  unfold Keyword.ofSpelling? at h
  split at h <;> cases h <;> decide +kernel

theorem Token.WrittenAs.traces_eq {t : Token} {spelling : List Char} (h : t.WrittenAs spelling) :
    Text.traces spelling = t.traces := by
  cases h with
  | @text quote content spelling quoted closes =>
      have hquote : Text.traces [quote] = 0 :=
        Text.traces_eq_zero (by simpa using Text.isTraced_eq_false rfl quoted)
      rw [Text.traces_cons, hquote, closes.traces_eq quoted, Nat.zero_add, Token.traces,
        String.toList_ofList]
  | number isWhole numerals =>
      rw [Lexeme.traces_numberToken]
      exact Text.traces_eq_zero fun c hc => Text.isTraced_eq_false rfl (numerals c hc)
  | keyword letters reserved =>
      rw [Token.traces, ← Keyword.traces_of_spelling reserved, String.toList_ofList]
  | name letters => rw [Token.traces, String.toList_ofList]
  | sign s => cases s <;> rfl

theorem Lexeme.Spell.traces_eq {ls : List Lexeme} {text : List Char} (h : Spell ls text)
    (written : ∀ l ∈ ls, l.token.WrittenAs l.text) :
    Text.traces text = Token.allTraces (ls.map Lexeme.token) := by
  have hblank {blank : List Char} (hb : ∀ c ∈ blank, Text.isBlank c = true) :
      Text.traces blank = 0 :=
    Text.traces_eq_zero fun c hc => Text.isTraced_eq_false rfl (hb c hc)
  induction h with
  | nil blank => exact hblank blank
  | @cons l ls rest blank text_ne_nil more ih =>
      have hmore := ih fun l' hl' => written l' (List.mem_cons_of_mem _ hl')
      rw [Text.traces_append, Text.traces_append, hblank blank, hmore,
        (written l List.mem_cons_self).traces_eq, Nat.zero_add, List.map_cons,
        Token.allTraces_cons]

theorem Token.allTraces_of_scan {text : List Char} {ts : List Token}
    (h : Token.scan text = .ok ts) : Token.allTraces ts = Text.traces text := by
  rw [Token.scan] at h
  cases hscan : Lexeme.scan text with
  | error fault =>
      rw [hscan] at h
      cases h
  | ok ls =>
      rw [hscan] at h
      cases h
      exact ((Lexeme.scan_spell hscan).traces_eq (Lexeme.scan_writtenAs hscan)).symm

/-! ## From tokens to trees -/

theorem Value.traces_token (v : Value) : v.token.traces = v.traces := by
  cases v with
  | bool b => cases b <;> rfl
  | _ => rfl

namespace Expr

/-- How many of the counted letters a tree is written with. -/
def traces (e : Expr) : Nat :=
  Token.allTraces e.printed

theorem traces_of_leaf {t : Token} {e : Expr} (h : t.leaf? = some e) : t.traces = e.traces := by
  cases t with
  | keyword k => cases k <;> cases h <;> rfl
  | value v =>
      cases h
      rw [traces, printed, Token.allTraces_cons, Value.traces_token]
      rfl
  | sign s => cases h
  | _ =>
      cases h
      rfl

theorem allTraces_printedMore (items : List Expr) :
    Token.allTraces (printedMore items) = Token.allTraces (printedItems items) := by
  cases items with
  | nil => rfl
  | cons item items => simp [printedMore, printedItems]

theorem token_of_signOps {s : Sign} {op : UnaryOp} (h : (s, op) ∈ signOps) :
    op.token = .sign s := by
  simp only [signOps, List.mem_cons, Prod.mk.injEq, List.not_mem_nil, or_false] at h
  rcases h with ⟨rfl, rfl⟩ | ⟨rfl, rfl⟩ <;> rfl

mutual

theorem Derives.traces_eq : ∀ {l : Level} {ts : List Token} {e : Expr}, Derives l ts e →
    Token.allTraces ts = Token.allTraces e.printed
  | _, _, _, .tighter _ inner => inner.traces_eq
  | _, _, _, .or left right => by simp [printed, left.traces_eq, right.traces_eq]
  | _, _, _, .and left right => by simp [printed, left.traces_eq, right.traces_eq]
  | _, _, _, .not operand => by simp [printed, UnaryOp.token, operand.traces_eq]
  | _, _, _, .comparison first more _ => by simp [printed, first.traces_eq, more.traces_eq]
  | _, _, _, .sum _ left right => by simp [printed, left.traces_eq, right.traces_eq]
  | _, _, _, .term _ left right => by simp [printed, left.traces_eq, right.traces_eq]
  | _, _, _, .signed sign operand => by
    simp [printed, token_of_signOps sign, operand.traces_eq]
  | _, _, _, .power base exponent => by simp [printed, base.traces_eq, exponent.traces_eq]
  | _, _, _, .index target place => by simp [printed, target.traces_eq, place.traces_eq]
  | _, _, _, .call callee sequence => by simp [printed, callee.traces_eq, sequence.traces_eq]
  | _, _, _, .leaf h => by
    rw [Token.allTraces_cons, Token.allTraces_nil]
    exact traces_of_leaf h
  | _, _, _, .parens inner => by simp [inner.traces_eq]
  | _, _, _, .list sequence => by simp [printed, sequence.traces_eq]

theorem DerivesLinks.traces_eq : ∀ {ts : List Token} {links : List Link}, DerivesLinks ts links →
    Token.allTraces ts = Token.allTraces (printedLinks links)
  | _, _, .nil => rfl
  | _, _, .cons op operand more => by simp [printedLinks, operand.traces_eq, more.traces_eq]

theorem DerivesItems.traces_eq : ∀ {ts : List Token} {es : List Expr}, DerivesItems ts es →
    Token.allTraces ts = Token.allTraces (printedItems es)
  | _, _, .one item => by simp [printedItems, printedMore, item.traces_eq]
  | _, _, .more item rest => by
    simp [printedItems, allTraces_printedMore, item.traces_eq, rest.traces_eq]

theorem DerivesSequence.traces_eq : ∀ {ts : List Token} {es : List Expr}, DerivesSequence ts es →
    Token.allTraces ts = Token.allTraces (printedItems es)
  | _, _, .nil => rfl
  | _, _, .plain items => items.traces_eq
  | _, _, .trailing items => by simp [items.traces_eq]

end

/-- A tree is read from a text. -/
def ReadFrom (e : Expr) (text : List Char) : Prop :=
  ∃ ts, Token.scan text = .ok ts ∧ parse ts = .ok e

theorem ReadFrom.traces_eq {e : Expr} {text : List Char} (h : e.ReadFrom text) :
    e.traces = Text.traces text := by
  obtain ⟨ts, hscan, hparse⟩ := h
  rw [← Token.allTraces_of_scan hscan, (derives_of_parse hparse).traces_eq]
  rfl

end Expr

end Parlance
