import Parlance.Proofs.Expr.Blanks
import Parlance.Proofs.Expr.Brackets
import Parlance.Proofs.Expr.Characters
import Parlance.Proofs.Expr.Recursion
import Parlance.Proofs.Expr.UndefinedNames

/-!
# Indexing a name

A name with an index behind it is found by its tokens, and the index is evaluated as a text of its
own. The text between the brackets is cut as it is by itself, because neither bracket belongs to a
token beside it; and where the square brackets inside are nested, the bracket behind the name is
closed by the last one. So the index has the value that its text has anywhere else.

Among the elements, an integer counts from the front or, if it is negative, from the end.
-/

namespace Parlance

/-! ## Square brackets -/

namespace Brackets

/-- Whether a token is a square bracket. -/
def isSquare (t : Token) : Bool :=
  t.isSign .openBracket || t.isSign .closeBracket

/-- The square brackets among the tokens are nested. Parentheses are left out of account. -/
def SquareNested (ts : List Token) : Prop :=
  Nested (ts.filter isSquare)

instance (ts : List Token) : Decidable (SquareNested ts) :=
  inferInstanceAs (Decidable (Nested (ts.filter isSquare)))

/-- The depth that is counted for the closing bracket is the number of those that are awaited. -/
theorem closesAtEnd_append {awaited awaited' : List Sign} {ts : List Token}
    (h : after awaited (ts.filter isSquare) = some awaited') (us : List Token) :
    Evaluate.closesAtEnd (awaited.length + 1) (ts ++ us) =
      Evaluate.closesAtEnd (awaited'.length + 1) us := by
  induction ts generalizing awaited with
  | nil =>
      cases h
      rfl
  | cons t ts ih =>
      rw [List.cons_append, Evaluate.closesAtEnd]
      by_cases hopening : t.isSign .openBracket = true
      · have hsquare : isSquare t = true := by simp [isSquare, hopening]
        rw [List.filter_cons_of_pos hsquare, Token.eq_sign_of_isSign hopening,
          after_opens rfl] at h
        rw [if_pos hopening]
        exact ih h
      · rw [if_neg hopening]
        by_cases hclosing : t.isSign .closeBracket = true
        · have hsquare : isSquare t = true := by simp [isSquare, hclosing]
          rw [List.filter_cons_of_pos hsquare, Token.eq_sign_of_isSign hclosing] at h
          rw [if_pos hclosing]
          cases awaited with
          | nil =>
              rw [after_closes_nil rfl] at h
              cases h
          | cons next awaited =>
              obtain ⟨-, hrest⟩ := eq_of_after_closes rfl h
              rw [if_neg (by simp)]
              exact ih hrest
        · have hother : ¬ isSquare t = true := by simp [isSquare, hopening, hclosing]
          rw [List.filter_cons_of_neg hother] at h
          rw [if_neg hclosing]
          exact ih h

/-- A bracket in front of nested ones is closed by the one right behind them. -/
theorem SquareNested.closesAtEnd {ts : List Token} (h : SquareNested ts) :
    Evaluate.closesAtEnd 1 (ts ++ [.sign .closeBracket]) = true := by
  have happend := @closesAtEnd_append [] [] ts h [.sign .closeBracket]
  rw [List.length_nil, Nat.zero_add] at happend
  rw [happend]
  rfl

/-- A bracket is closed at the end only if what stands in front of the end closes all that is open
but for this bracket. -/
theorem exists_of_closesAtEnd {awaited : List Sign} (hawaited : ∀ s ∈ awaited, s = .closeBracket)
    {ts : List Token} (h : Evaluate.closesAtEnd (awaited.length + 1) ts = true) :
    ∃ inner, ts = inner ++ [.sign .closeBracket] ∧ after awaited (inner.filter isSquare) = some [] := by
  induction ts generalizing awaited with
  | nil => cases h
  | cons t ts ih =>
      rw [Evaluate.closesAtEnd] at h
      by_cases hopening : t.isSign .openBracket = true
      · rw [if_pos hopening] at h
        have hmore : ∀ s ∈ Sign.closeBracket :: awaited, s = .closeBracket :=
          List.forall_mem_cons.mpr ⟨rfl, hawaited⟩
        obtain ⟨inner, rfl, hafter⟩ := ih hmore h
        have hsquare : isSquare t = true := by simp [isSquare, hopening]
        refine ⟨t :: inner, rfl, ?_⟩
        rw [List.filter_cons_of_pos hsquare, Token.eq_sign_of_isSign hopening, after_opens rfl]
        exact hafter
      · rw [if_neg hopening] at h
        by_cases hclosing : t.isSign .closeBracket = true
        · rw [if_pos hclosing] at h
          cases awaited with
          | nil =>
              rw [if_pos (by simp), List.isEmpty_iff] at h
              rw [h, Token.eq_sign_of_isSign hclosing]
              exact ⟨[], rfl, rfl⟩
          | cons next awaited =>
              rw [if_neg (by simp)] at h
              obtain ⟨rfl, hrest⟩ := List.forall_mem_cons.mp hawaited
              obtain ⟨inner, rfl, hafter⟩ := ih hrest h
              have hsquare : isSquare t = true := by simp [isSquare, hclosing]
              refine ⟨t :: inner, rfl, ?_⟩
              rw [List.filter_cons_of_pos hsquare, Token.eq_sign_of_isSign hclosing,
                after_closes rfl]
              exact hafter
        · rw [if_neg hclosing] at h
          obtain ⟨inner, rfl, hafter⟩ := ih hawaited h
          have hother : ¬ isSquare t = true := by simp [isSquare, hopening, hclosing]
          refine ⟨t :: inner, rfl, ?_⟩
          rw [List.filter_cons_of_neg hother]
          exact hafter

/-- What is closed by the last bracket, and by none before, is nested in front of it. -/
theorem squareNested_of_closesAtEnd {ts : List Token} (h : Evaluate.closesAtEnd 1 ts = true) :
    ∃ inner, ts = inner ++ [.sign .closeBracket] ∧ SquareNested inner :=
  @exists_of_closesAtEnd [] nofun ts h

end Brackets

/-! ## The lexemes of an indexed name -/

namespace Lexeme

variable {x : String} {t : List Char} {ls : List Lexeme}

/-- A text that is a single name is a word without blanks around it. -/
theorem scan_of_name (h : Token.scan x.toList = .ok [.name x]) :
    scan x.toList = .ok [⟨[], x.toList, .name x⟩] ∧
      ∀ c ∈ x.toList, Text.continuesWord c = true := by
  obtain ⟨ls, hlexemes, htokens⟩ := Evaluate.lexemes_of_tokens h
  have hls := Evaluate.scan_of_lexemes hlexemes
  obtain ⟨⟨blank, text, token⟩, rfl, htoken⟩ := List.map_eq_singleton_iff.mp htokens
  obtain ⟨htext, letters⟩ := (scan_writtenAs hls _ (List.mem_singleton_self _)).of_name htoken
  obtain rfl : text = x.toList := htext
  obtain ⟨tail, -, hcuts⟩ := exists_cuts hls
  have hlength := congrArg List.length hcuts.eq_append
  simp only [List.flatMap_singleton, chars, List.length_append] at hlength
  obtain rfl : blank = [] := List.length_eq_zero_iff.mp (by omega)
  obtain rfl : token = .name x := htoken
  exact ⟨hls, letters⟩

theorem visible_of_continuesWord {c : Char} (h : Text.continuesWord c = true) :
    Text.isBlank c = false := by
  by_contra hblank
  have hends := endsToken_of_isBlank (Bool.of_not_eq_false hblank)
  rw [hends.word] at h
  cases h

/-- Neither the name nor the text of the index is cut in another way than by itself. -/
theorem scan_indexed (hx : Token.scan x.toList = .ok [.name x]) (ht : scan t = .ok ls) :
    ∃ tail, t = ls.flatMap chars ++ tail ∧
      scan (x.toList ++ '[' :: (t ++ [']'])) =
        .ok (⟨[], x.toList, .name x⟩ :: ⟨[], ['['], .sign .openBracket⟩ ::
          (ls ++ [⟨tail, [']'], .sign .closeBracket⟩])) := by
  have hopens : EndsToken '[' := endsToken_of_continuesToken (by decide)
  have hcloses : EndsToken ']' := endsToken_of_continuesToken (by decide)
  have hopening (rest : List Char) : cutToken '[' rest = .ok ⟨.sign .openBracket, ['['], rest⟩ := rfl
  have hclosing : cutToken ']' [] = .ok ⟨.sign .closeBracket, [']'], []⟩ := rfl
  obtain ⟨tail, htail, happend, hinner⟩ := scan_append_ended hcloses ht []
  rw [scan_append_cons htail rfl hclosing, scan_nil] at hinner
  obtain ⟨behind, -, hname, hwhole⟩ := scan_append_ended hopens (scan_of_name hx).1 (t ++ [']'])
  obtain rfl : behind = [] := by simpa [chars] using hname
  refine ⟨tail, happend, ?_⟩
  rw [hwhole, List.nil_append, scan_cons rfl (hopening _), hinner]
  rfl

end Lexeme

/-! ## Evaluating an indexed name -/

namespace Evaluate

open Brackets

/-- The element of a value at the place that a computation gives. -/
def elementAt (target : Value) (place : Eval Value) : Eval Value := do
  let place ← place
  Value.index (← Eval.heap) target place

theorem indexed?_of_squareNested {first opening closing : Lexeme} {n : String} {ls : List Lexeme}
    (hfirst : first.token = .name n) (hopening : opening.token = .sign .openBracket)
    (hclosing : closing.token = .sign .closeBracket) (nested : SquareNested (ls.map Lexeme.token)) :
    indexed? (first :: opening :: (ls ++ [closing])) =
      some (n, ls.flatMap Lexeme.chars ++ closing.blank) := by
  have hcloses := nested.closesAtEnd
  rw [← hclosing, ← List.map_singleton, ← List.map_append] at hcloses
  have hopens : opening.token.isSign .openBracket = true := by rw [hopening]; rfl
  simp only [indexed?, hfirst, List.getLast?_concat, hopens, hcloses, Bool.and_self, if_true,
    List.dropLast_concat]

theorem lexedWith_indexed {scope : Bindings} {n : String} {target : Value} {inner text : List Char}
    {ls : List Lexeme} (hname : singleName? scope ls = none) (hindexed : indexed? ls = some (n, inner))
    (hbound : scope.get? n = some target) (evaluateIndex : List Char → Eval Value) :
    lexedWith scope evaluateIndex text ls = elementAt target (evaluateIndex inner) := by
  have hlookup : lookup scope n = .ok target := by simp [lookup, hbound]
  rw [lexedWith, hname, hindexed]
  dsimp only
  rw [hlookup, Eval.lift_ok_bind]
  rfl

/-- A name with an index has the element at the value that the text of the index has by itself. -/
theorem text_indexed {scope : Bindings} {x t : String} {target : Value} {ts : List Token}
    (hx : Token.scan x.toList = .ok [.name x]) (hbound : scope.get? x = some target)
    (ht : Token.scan t.toList = .ok ts) (nested : SquareNested ts) :
    text scope (x ++ "[" ++ t ++ "]") = elementAt target (text scope t) := by
  obtain ⟨ls, hlexemes, rfl⟩ := lexemes_of_tokens ht
  obtain ⟨tail, happend, hscan⟩ := Lexeme.scan_indexed hx (scan_of_lexemes hlexemes)
  have hne : x.toList ≠ [] := by
    intro hnil
    rw [hnil] at hx
    cases hx
  have hsource : (x ++ "[" ++ t ++ "]").toList = x.toList ++ '[' :: (t.toList ++ [']']) := by
    simp
  have hwritten : asWritten? (x.toList ++ '[' :: (t.toList ++ [']'])) = pure none := by
    rw [asWritten?, not_looksBracketed_of_name (tokens_of_scan hscan)]
    rfl
  have hindexed := @indexed?_of_squareNested ⟨[], x.toList, .name x⟩ ⟨[], ['['], .sign .openBracket⟩
    ⟨tail, [']'], .sign .closeBracket⟩ x ls rfl rfl rfl nested
  have hvisible : ∀ c ∈ x.toList, Text.isBlank c = false := fun c hc =>
    Lexeme.visible_of_continuesWord ((Lexeme.scan_of_name hx).2 c hc)
  have htrim := @Text.trim_between x.toList ']' hne (Text.trim_of_visible hvisible) rfl
    ('[' :: t.toList)
  rw [List.cons_append] at htrim
  rw [text_eq_textWith, hsource, textWith, htrim, hwritten, pure_bind, lexemes, hscan]
  dsimp only
  rw [Eval.lift_ok_bind, lexedWith_indexed rfl hindexed hbound, ← happend, String.ofList_toList]

end Evaluate

/-! ## Integers as places -/

namespace Value

/-- What taking one of the elements by an integer comes to: the one so many places from the front if
it is not negative, the one so many places from the end if it is, and a failure if there is none. -/
structure TakesElement (elements : List Value) (i : Int64) (outcome : Except Error Value) : Prop where
  front (k : Nat) (h : k < elements.length) (hi : i.toInt = k) : outcome = .ok elements[k]
  back (k : Nat) (h : k < elements.length) (hi : elements.length + i.toInt = k) :
    outcome = .ok elements[k]
  outside (hi : i.toInt < -elements.length ∨ elements.length ≤ i.toInt) :
    outcome = .error (.badIndex (Number.writeInt i.toInt))
  /-- Counting from the end stays within the 64 bits of the integer. -/
  exact (hi : i.toInt < 0) (hlength : elements.length ≤ Int64.maxValue.toInt) :
    (i + Int64.ofNat elements.length).toInt = i.toInt + elements.length

theorem position_int (heap : Heap) (i : Int64) (length : Nat) :
    position heap (.int i) length =
      let place := if i.toInt < 0 then i.toInt + length else i.toInt
      if 0 ≤ place && place < length then .ok place.toNat
      else .error (.badIndex (Number.writeInt i.toInt)) :=
  rfl

theorem position_front {i : Int64} {k length : Nat} (h : k < length) (hi : i.toInt = k)
    (heap : Heap) : position heap (.int i) length = .ok k := by
  have hfront : ¬ i.toInt < 0 := by omega
  have hwithin : (0 ≤ i.toInt && i.toInt < length) = true := by simp [hi, h]
  rw [position_int]
  dsimp only
  rw [if_neg hfront, if_pos hwithin, hi, Int.toNat_natCast]

theorem position_back {i : Int64} {k length : Nat} (h : k < length) (hi : length + i.toInt = k)
    (heap : Heap) : position heap (.int i) length = .ok k := by
  have hback : i.toInt < 0 := by omega
  have hplace : i.toInt + length = k := by omega
  rw [position_int]
  dsimp only
  rw [if_pos hback, hplace, if_pos (by simp [h]), Int.toNat_natCast]

theorem position_outside {i : Int64} {length : Nat}
    (hi : i.toInt < -length ∨ length ≤ i.toInt) (heap : Heap) :
    position heap (.int i) length = .error (.badIndex (Number.writeInt i.toInt)) := by
  rw [position_int]
  dsimp only
  rw [if_neg]
  simp only [Bool.and_eq_true, decide_eq_true_eq]
  split <;> omega

theorem toInt_add_length {i : Int64} {length : Nat} (hi : i.toInt < 0)
    (hlength : length ≤ Int64.maxValue.toInt) :
    (i + Int64.ofNat length).toInt = i.toInt + length := by
  have hmin := i.le_toInt
  rw [Int64.toInt_maxValue] at hlength
  rw [Int64.toInt_add, Int64.toInt_ofNat_of_lt (by omega)]
  exact Int.bmod_eq_of_le (by omega) (by omega)

theorem takesElement_list (heap : Heap) (cell : Nat) (i : Int64) :
    TakesElement (heap.items cell) i (index heap (.list cell) (.int i)) where
  front k h hi := by
    simp [index, position_front h hi, bind, Except.bind, pure, Except.pure, h]
  back k h hi := by
    simp [index, position_back h hi, bind, Except.bind, pure, Except.pure, h]
  outside hi := by
    simp [index, position_outside hi, bind, Except.bind]
  exact := toInt_add_length

theorem takesElement_str (heap : Heap) (s : String) (i : Int64) :
    TakesElement (Builtin.charValues s) i (index heap (.str s) (.int i)) := by
  have hlength : (Builtin.charValues s).length = s.toList.length := List.length_map _
  refine ⟨fun k h hi => ?_, fun k h hi => ?_, fun hi => ?_, toInt_add_length⟩
  · rw [hlength] at h
    simp [index, position_front h hi, bind, Except.bind, pure, Except.pure, h, Builtin.charValues]
  · rw [hlength] at h hi
    simp [index, position_back h hi, bind, Except.bind, pure, Except.pure, h, Builtin.charValues]
  · rw [hlength] at hi
    simp [index, position_outside hi, bind, Except.bind]

end Value

namespace Evaluate

open Brackets

/-- A name with an index has the element at the value that the text of the index has by itself; and
an integer takes the element of a list, or the character of a text, that it counts to. -/
theorem indexed_names_take_elements :
    (∀ {scope : Bindings} {x t : String} {target : Value} {ts : List Token},
      Token.scan x.toList = .ok [.name x] → scope.get? x = some target →
        Token.scan t.toList = .ok ts → SquareNested ts →
          text scope (x ++ "[" ++ t ++ "]") = elementAt target (text scope t)) ∧
      ∀ (heap : Heap) (i : Int64),
        (∀ cell, Value.TakesElement (heap.items cell) i (Value.index heap (.list cell) (.int i))) ∧
          ∀ s : String,
            Value.TakesElement (Builtin.charValues s) i (Value.index heap (.str s) (.int i)) :=
  ⟨text_indexed, fun heap i => ⟨fun cell => Value.takesElement_list heap cell i,
    fun s => Value.takesElement_str heap s i⟩⟩

/-- Three woods, and a list of places among them. -/
def timberStore : Store :=
  { heap := { lists := #[[.str "oak", .str "ash", .str "élm"], [.int 0, .int (-1)]] } }

def timberScope : Bindings :=
  NameMap.ofList [("woods", .list 0), ("places", .list 1)]

/-- An index with an index and a bracket in quotes inside; and the last place, the place of a
character, and a place that is as low as an integer can be. -/
theorem indexed_names_take_elements_timber :
    text timberScope "woods[ places[len(\"[\")]]" =
        elementAt (.list 0) (text timberScope " places[len(\"[\")]") ∧
      Value.index timberStore.heap (.list 0) (.int (-1)) = .ok (.str "élm") ∧
      Value.index timberStore.heap (.str "élm") (.int 2) = .ok (.str "m") ∧
      Value.index timberStore.heap (.list 0) (.int Int64.minValue) =
        .error (.badIndex "-9223372036854775808") := by
  obtain ⟨inner, elements⟩ := indexed_names_take_elements
  have hsource : "woods[ places[len(\"[\")]]" = "woods" ++ "[" ++ " places[len(\"[\")]" ++ "]" := by
    decide
  refine ⟨?_, ?_, ?_, ?_⟩
  · rw [hsource]
    exact inner rfl rfl rfl (by decide)
  · exact ((elements timberStore.heap (-1)).1 0).back 2 (by decide) (by decide)
  · exact ((elements timberStore.heap 2).2 "élm").front 2 (by decide) (by decide)
  · exact ((elements timberStore.heap Int64.minValue).1 0).outside (by decide)

end Evaluate

end Parlance
