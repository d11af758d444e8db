import Parlance.Proofs.Expr.Literals
import Parlance.Proofs.Expr.Sharing

/-!
# Reading back what is shown

The form in which a list is shown is itself an expression for a list like it: every element is
written as a literal, or as the negative of one, and lists are written in brackets. So evaluating
the form of a list makes a copy of it, whatever names are in scope.
-/

namespace Parlance

open Eval Relation

/-- A value with a literal form: nothing, a truth value, an integer above the least, a text, or a
list of such values. As the list is built up from below, it does not contain itself. -/
inductive Value.Literal (heap : Heap) : Value → Prop
  | none : Literal heap .none
  | bool (b : Bool) : Literal heap (.bool b)
  | int {i : Int64} (h : Int64.minValue < i) : Literal heap (.int i)
  | str (s : String) : Literal heap (.str s)
  | list {cell : Nat} (items : ∀ v ∈ heap.items cell, Literal heap v) : Literal heap (.list cell)

variable {heap : Heap}

theorem Value.Literal.acyclic {v : Value} (h : v.Literal heap) {r : Ref} (hr : v.ref? = some r) :
    ¬ TransGen heap.Holds r r := by
  induction h generalizing r with
  | @list cell _ ih =>
      cases hr
      intro cycle
      -- A cycle through the list goes through one of its elements.
      obtain ⟨inner, ⟨w, hw, hinner⟩, path⟩ := TransGen.head'_iff.mp cycle
      exact ih w hw hinner (TransGen.tail' path ⟨w, hw, hinner⟩)
  | _ => cases hr

/-! ## Texts that read as values -/

theorem Token.scan_blank {b : Char} (hb : Text.isBlank b = true) (source : List Char) :
    Token.scan (b :: source) = Token.scan source := by
  have hfuel : Lexeme.scan source = Lexeme.scanFuel (source.length + 1) source :=
    Lexeme.scanFuel_eq (Nat.le_refl _) (Nat.le_succ _)
  have hspan : (b :: source).span Text.isBlank =
      (b :: (source.span Text.isBlank).1, (source.span Text.isBlank).2) := by
    simp only [List.span_eq_takeWhile_dropWhile, List.takeWhile_cons, List.dropWhile_cons, hb, if_true]
  rw [Token.scan, Token.scan, hfuel, Lexeme.scan, List.length_cons]
  simp only [Lexeme.scanFuel, hspan]
  split
  · rfl
  · split
    · rfl
    · split <;> rfl

theorem Token.scan_of_scan {source rest : List Char} {l : Lexeme}
    (h : Lexeme.scan source = (Lexeme.scan rest).map (l :: ·)) :
    Token.scan source = (Token.scan rest).map (l.token :: ·) := by
  rw [Token.scan, Token.scan, h]
  cases Lexeme.scan rest <;> rfl

/-- A text is cut into the given tokens, wherever it stands for an element of a list. -/
def Token.Spelled (text : List Char) (ts : List Token) : Prop :=
  ∀ rest, Lexeme.ClosesElement rest →
    Token.scan (text ++ rest) = (Token.scan rest).map (ts ++ ·)

theorem Token.Spelled.sign {c : Char} {s : Sign} {text : List Char} {ts : List Token}
    (hc : Text.isBlank c = false)
    (hcut : ∀ rest, Lexeme.cutToken c rest = .ok ⟨.sign s, [c], rest⟩) (h : Spelled text ts) :
    Spelled (c :: text) (.sign s :: ts) := by
  intro rest hrest
  rw [List.cons_append, Token.scan_of_scan (Lexeme.scan_cons hc (hcut _)), h rest hrest]
  cases Token.scan rest <;> rfl

/-- A text reads as a value: the tokens it is cut into derive a tree that evaluates to a copy of the
value. -/
def Value.ReadsAs (heap : Heap) (text : List Char) (v : Value) : Prop :=
  ∃ ts e, Token.Spelled text ts ∧ Expr.Derives .or ts e ∧
    ∀ base, heap.Extends base → Gives base e.eval fun now copy => v.Copied heap now copy

/-- A text reads as values between commas. -/
def Value.AllReadAs (heap : Heap) (text : List Char) (vs : List Value) : Prop :=
  ∃ ts es, Token.Spelled text ts ∧ Expr.DerivesSequence ts es ∧
    ∀ base, heap.Extends base →
      Gives base (Expr.evalAll es) fun now copies =>
        List.Forall₂ (fun v copy => v.Copied heap now copy) vs copies

namespace Value

theorem ReadsAs.of_leaf {text : List Char} {t : Token} {v : Value} (hv : v.isScalar = true)
    (hscan : ∀ rest, Lexeme.ClosesElement rest →
      Lexeme.scan (text ++ rest) = (Lexeme.scan rest).map (⟨[], text, t⟩ :: ·))
    (hleaf : t.leaf? = some (.literal v)) : ReadsAs heap text v := by
  refine ⟨[t], .literal v, fun rest hrest => ?_, ?_, fun base _ => ?_⟩
  · exact Token.scan_of_scan (hscan rest hrest)
  · exact (Expr.Derives.leaf hleaf).loosen (Nat.zero_le _)
  · exact .pure fun _ _ => .scalar hv

theorem readsAs_str (s : String) : ReadsAs heap (Text.quoted s).toList (.str s) := by
  rw [Text.quoted, String.toList_ofList]
  refine .of_leaf rfl (fun rest _ => Lexeme.scan_quoteChars s.toList rest) ?_
  rw [String.ofList_toList]
  rfl

theorem readsAs_none : ReadsAs heap "None".toList .none := by
  refine .of_leaf rfl (fun rest hrest => ?_) (t := .keyword .nothing) rfl
  exact Lexeme.scan_keyword (c := 'N') rfl ⟨rfl, rfl, rfl⟩ rfl (List.all_eq_true.mp rfl) rfl hrest

theorem readsAs_bool (b : Bool) :
    ReadsAs heap (if b then "True" else "False").toList (.bool b) := by
  cases b with
  | true =>
      refine .of_leaf rfl (fun rest hrest => ?_) (t := .keyword .yes) rfl
      exact Lexeme.scan_keyword (c := 'T') rfl ⟨rfl, rfl, rfl⟩ rfl (List.all_eq_true.mp rfl) rfl hrest
  | false =>
      refine .of_leaf rfl (fun rest hrest => ?_) (t := .keyword .no) rfl
      exact Lexeme.scan_keyword (c := 'F') rfl ⟨rfl, rfl, rfl⟩ rfl (List.all_eq_true.mp rfl) rfl hrest

/-- A negative integer is written as the negative of its magnitude, which is an integer too. -/
theorem readsAs_negative {n : Nat} {i : Int64} (hi : i.toInt = Int.negSucc n)
    (h : Int64.minValue < i) :
    ReadsAs heap ('-' :: Nat.toDigits 10 (n + 1)) (.int i) := by
  have hlow := Int64.lt_iff_toInt_lt.mp h
  rw [Int64.toInt_minValue, hi] at hlow
  have hmagnitude : (Int64.ofInt (n + 1 : Nat)).toInt = (n + 1 : Nat) :=
    Int64.toInt_ofInt_of_le (by omega) (by omega)
  have hdigits : Token.Spelled (Nat.toDigits 10 (n + 1)) [.int (Int64.ofInt (n + 1 : Nat))] :=
    fun rest hrest => Token.scan_of_scan (Lexeme.scan_toDigits hmagnitude hrest)
  have hvalue : integerOr (-(Int64.ofInt (n + 1 : Nat)).toInt)
      (-(Binary64.ofInt (Int64.ofInt (n + 1 : Nat)).toInt)) = .int i := by
    have hneg : -(Int64.ofInt (n + 1 : Nat)).toInt = i.toInt := by
      rw [hmagnitude, hi]
      rfl
    have hrange : Number.inInt64 i.toInt = true := by
      rw [Number.inInt64, Bool.and_eq_true, decide_eq_true_iff, decide_eq_true_iff]
      exact ⟨i.minValue_le_toInt, i.toInt_le⟩
    rw [integerOr, hneg, Number.toInt64?, if_pos hrange, Int64.ofInt_toInt]
  refine ⟨_, .unary .negate (.literal (.int (Int64.ofInt (n + 1 : Nat)))),
    hdigits.sign (s := .minus) rfl fun _ => rfl, ?_, fun base _ => ?_⟩
  · have hleaf : Expr.Derives .signed [.int (Int64.ofInt (n + 1 : Nat))] _ :=
      (Expr.Derives.leaf rfl).loosen (by decide)
    exact (Expr.Derives.signed (by decide) hleaf).loosen (Nat.zero_le _)
  · intro store _
    refine ⟨.int i, store, ?_, .refl _, .scalar rfl⟩
    rw [← hvalue]
    rfl

theorem readsAs_int {i : Int64} (h : Int64.minValue < i) :
    ReadsAs heap (Number.writeInt i.toInt).toList (.int i) := by
  unfold Number.writeInt
  split
  · next n hn =>
    rw [String.toList_ofList]
    exact .of_leaf rfl (fun rest hrest => Lexeme.scan_toDigits hn hrest) rfl
  · next n hn =>
    rw [String.toList_ofList]
    exact readsAs_negative hn h

/-! ## Lists -/

theorem AllReadAs.cons {text more : List Char} {v : Value} {vs : List Value}
    (h : ReadsAs heap text v) (hmore : AllReadAs heap more vs) :
    AllReadAs heap (text ++ ',' :: ' ' :: more) (v :: vs) := by
  obtain ⟨ts, e, hspelled, hderives, hgives⟩ := h
  obtain ⟨us, es, hspelled', hderives', hgives'⟩ := hmore
  refine ⟨ts ++ .sign .comma :: us, e :: es, fun rest hrest => ?_, .cons hderives hderives',
    fun base hbase => ?_⟩
  · have hcut : Lexeme.cutToken ',' (' ' :: (more ++ rest)) =
        .ok ⟨.sign .comma, [','], ' ' :: (more ++ rest)⟩ := rfl
    have hcomma : Token.scan (',' :: ' ' :: (more ++ rest)) =
        (Token.scan rest).map fun ts' => .sign .comma :: (us ++ ts') := by
      rw [Token.scan_of_scan (Lexeme.scan_cons rfl hcut), Token.scan_blank rfl,
        hspelled' rest hrest]
      cases Token.scan rest <;> rfl
    have hcloses : Lexeme.ClosesElement (',' :: ' ' :: (more ++ rest)) :=
      fun c hc => .inl (Option.some.inj hc).symm
    rw [List.append_assoc, List.cons_append, List.cons_append, hspelled _ hcloses, hcomma]
    cases Token.scan rest <;> simp [Except.map]
  · refine (hgives base hbase).bind fun middle copy hmiddle hcopy => ?_
    refine (hgives' middle (hbase.trans hmiddle)).bind fun last copies hlast hcopies => ?_
    exact .pure fun now hnow =>
      .cons (hcopy.grow (hlast.trans hnow)) (hcopies.imp fun _ _ hv => hv.grow hnow)

/-- Elements that read as values, put one behind another with commas. -/
theorem allReadAs_intercalate {texts : List (List Char)} {vs : List Value}
    (h : List.Forall₂ (ReadsAs heap) texts vs) :
    AllReadAs heap ([',', ' '].intercalate texts) vs := by
  induction h with
  | nil =>
      refine ⟨[], [], fun rest _ => ?_, .nil, fun base _ => .pure fun _ _ => .nil⟩
      rw [List.intercalate_nil, List.nil_append]
      cases Token.scan rest <;> rfl
  | @cons text v texts vs htext htexts ih =>
      cases htexts with
      | nil =>
          obtain ⟨ts, e, hspelled, hderives, hgives⟩ := htext
          rw [List.intercalate_singleton]
          refine ⟨ts, [e], hspelled, .plain (.one hderives), fun base hbase => ?_⟩
          refine (hgives base hbase).bind fun middle copy _ hcopy => ?_
          exact .pure fun now hnow => .cons (hcopy.grow hnow) .nil
      | cons _ _ =>
          rw [List.intercalate_cons_cons, List.append_assoc]
          exact .cons htext ih

theorem readsAs_list {cell : Nat} {text : List Char} (h : AllReadAs heap text (heap.items cell)) :
    ReadsAs heap ('[' :: (text ++ [']'])) (.list cell) := by
  obtain ⟨ts, es, hspelled, hderives, hgives⟩ := h
  have hclosed : Token.Spelled (text ++ [']']) (ts ++ [.sign .closeBracket]) := by
    intro rest hrest
    have hcut : Lexeme.cutToken ']' rest = .ok ⟨.sign .closeBracket, [']'], rest⟩ := rfl
    have hcloses : Lexeme.ClosesElement (']' :: rest) := fun c hc => .inr (Option.some.inj hc).symm
    rw [List.append_assoc, List.singleton_append, hspelled _ hcloses,
      Token.scan_of_scan (Lexeme.scan_cons rfl hcut)]
    cases Token.scan rest <;> simp [Except.map]
  refine ⟨_, .list es, hclosed.sign (s := .openBracket) rfl fun _ => rfl, ?_, fun base hbase => ?_⟩
  · exact (Expr.Derives.list hderives).loosen (Nat.zero_le _)
  · refine (hgives base hbase).bind fun middle copies hmiddle hcopies => ?_
    exact newList_copies (hbase.trans hmiddle) hcopies

/-- A value with a literal form is shown as a text that reads as it, also where it stands inside
lists that it does not hold. -/
theorem readsAs_showFuel {v : Value} (h : v.Literal heap) {fuel : Nat} {path : List Ref}
    (walk : Walk heap.refs path fuel)
    (hpath : ∀ outer ∈ path, ∀ r, v.ref? = some r → TransGen heap.Holds outer r) :
    ReadsAs heap (showFuel heap fuel path true v).toList v := by
  induction h generalizing fuel path with
  | none =>
      rw [showFuel]
      exact readsAs_none
  | bool b =>
      rw [showFuel]
      exact readsAs_bool b
  | int h =>
      rw [showFuel]
      exact readsAs_int h
  | str s =>
      rw [showFuel, if_pos rfl]
      exact readsAs_str s
  | @list cell items ih =>
      obtain ⟨fuel, rfl⟩ := walk.succ
      have hnew : .list cell ∉ path := fun hmem =>
        (Literal.list items).acyclic rfl (hpath _ hmem _ rfl)
      have each : List.Forall₂ (ReadsAs heap)
          ((heap.items cell).map fun v =>
            (showFuel heap fuel (.list cell :: path) true v).toList) (heap.items cell) := by
        rw [List.forall₂_map_left_iff, List.forall₂_same]
        intro w hw
        refine ih w hw (walk.enter (Heap.list_mem_refs hw) hnew) fun outer houter r hr => ?_
        have hholds : heap.Holds (.list cell) r := ⟨w, hw, hr⟩
        rcases List.mem_cons.mp houter with rfl | houter
        · exact .single hholds
        · exact (hpath outer houter _ rfl).tail hholds
      have htext : (showFuel heap (fuel + 1) path true (.list cell)).toList =
          '[' :: ([',', ' '].intercalate ((heap.items cell).map fun v =>
            (showFuel heap fuel (.list cell :: path) true v).toList) ++ [']']) := by
        simp only [showFuel]
        rw [if_neg (by simpa using hnew), String.toList_append, String.toList_append,
          String.toList_intercalate, List.map_map]
        rfl
      rw [htext]
      exact readsAs_list (allReadAs_intercalate each)

theorem repr_list (heap : Heap) (cell : Nat) :
    ∃ inner, ((Value.list cell).repr heap).toList = '[' :: (inner ++ [']']) := by
  simp only [repr, showFuel]
  rw [if_neg (by simp), String.toList_append, String.toList_append]
  exact ⟨_, rfl⟩

theorem readsAs_repr {v : Value} (h : v.Literal heap) : ReadsAs heap (v.repr heap).toList v := by
  have hroom : heap.refs.length < heap.cellCount + 1 := by
    rw [Heap.length_refs]
    omega
  exact readsAs_showFuel h (.start hroom) nofun

end Value

/-! ## Evaluating what is shown -/

namespace Evaluate

/-- What stands in brackets has no blanks around it. -/
theorem trim_bracketed (inner : List Char) :
    Text.trim ('[' :: (inner ++ [']'])) = '[' :: (inner ++ [']']) :=
  @Text.trim_between ['['] ']' (List.cons_ne_nil _ _) rfl rfl inner

theorem looksBracketed_bracketed (inner : List Char) :
    looksBracketed ('[' :: (inner ++ [']'])) = true := by
  have hlast : ('[' :: (inner ++ [']'])).getLast? = some ']' := by
    rw [← List.cons_append, List.getLast?_concat]
  simp [looksBracketed, Text.endsWithChar, hlast]

/-- A text that reads as a value evaluates to a copy of it, if names are not resolved. -/
theorem unresolved_of_readsAs {text : List Char} {v : Value} (h : v.ReadsAs heap text) :
    Gives heap (unresolved text) fun now copy => v.Copied heap now copy := by
  obtain ⟨ts, e, hspelled, hderives, hgives⟩ := h
  have htokens : Token.scan text = .ok ts := by
    have hscan := hspelled [] nofun
    rw [List.append_nil] at hscan
    rw [hscan]
    exact congrArg Except.ok (List.append_nil ts)
  obtain ⟨ls, hls, rfl⟩ := lexemes_of_tokens htokens
  have hrun : unresolved text = e.eval := by
    unfold unresolved
    rw [hls]
    change tokens (ls.map Lexeme.token) = e.eval
    rw [tokens, Expr.parse_of_derives hderives]
  rw [hrun]
  exact hgives heap (.refl heap)

theorem text_of_unresolved {inner : List Char} {v : Value} {store store' : Store}
    (h : unresolved ('[' :: (inner ++ [']'])) store = (.ok v, store')) (scope : Bindings)
    {source : String} (hsource : source.toList = '[' :: (inner ++ [']'])) :
    text scope source store = (.ok v, store') := by
  have hwritten : asWritten? ('[' :: (inner ++ [']'])) store = (.ok (some v), store') := by
    rw [asWritten?, if_pos (looksBracketed_bracketed inner), success?, tryCatch_run, bind_run, h]
    rfl
  unfold text textFuel textWith
  rw [hsource, trim_bracketed, bind_run, hwritten]
  rfl

/-- Evaluating the form in which a list is shown makes a copy of the list, whatever is in scope. And
a quoted text, on which this rests, is a single token for the text that takes all of its bytes. -/
theorem shown_lists_read_back :
    (∀ (store : Store) (cell : Nat), (Value.list cell).Literal store.heap →
      ∃ copy store', (∀ scope, text scope ((Value.list cell).repr store.heap) store =
          (.ok copy, store')) ∧
        store.heap.Extends store'.heap ∧ (Value.list cell).Copied store.heap store'.heap copy) ∧
      ∀ s : String, (Lexeme.scan (Text.quoted s).toList).map Lexeme.spans =
        .ok [⟨.str s, 0, (Text.quoted s).utf8ByteSize⟩] := by
  refine ⟨fun store cell h => ?_, fun s => ?_⟩
  · obtain ⟨inner, hinner⟩ := Value.repr_list store.heap cell
    have hreads := Value.readsAs_repr h
    rw [hinner] at hreads
    obtain ⟨copy, store', hrun, hgrow, hcopy⟩ := unresolved_of_readsAs hreads store (.refl _)
    exact ⟨copy, store', fun scope => text_of_unresolved hrun scope hinner, hgrow, hcopy⟩
  · have hscan := Lexeme.scan_quoteChars s.toList []
    rw [List.append_nil, String.ofList_toList] at hscan
    rw [Text.quoted, String.toList_ofList, hscan, ← Text.byteLength_eq]
    simp [Lexeme.scan_nil, Except.map, Lexeme.spans, Lexeme.spansFrom, Text.byteLength]

/-- A list of a text with both quotes, a negative number and a list of nothing and a truth value. -/
def packedHeap : Heap :=
  { lists := #[[.str "'\"\\#], \n", .int (-7), .list 1], [.none, .bool true]] }

theorem packedHeap_literal : (Value.list 0).Literal packedHeap := by
  have hinner : (Value.list 1).Literal packedHeap := by
    refine .list fun v hv => ?_
    have hitems : packedHeap.items 1 = [.none, .bool true] := rfl
    rw [hitems] at hv
    rcases List.mem_pair.mp hv with rfl | rfl
    · exact .none
    · exact .bool true
  refine .list fun v hv => ?_
  have hitems : packedHeap.items 0 = [.str "'\"\\#], \n", .int (-7), .list 1] := rfl
  rw [hitems] at hv
  rcases List.mem_cons.mp hv with rfl | hv
  · exact .str _
  · rcases List.mem_pair.mp hv with rfl | rfl
    · exact .int (by decide)
    · exact hinner

/-- The list of lists reads back, also where a variable is called like one of its words. -/
theorem shown_lists_read_back_packed :
    (Value.list 0).Literal packedHeap ∧
      (Value.list 0).repr packedHeap = "['\\'\"\\\\#], \\n', -7, [None, True]]" ∧
      ∃ copy store', (∀ scope, text scope ((Value.list 0).repr packedHeap) { heap := packedHeap } =
          (.ok copy, store')) ∧
        packedHeap.Extends store'.heap ∧ (Value.list 0).Copied packedHeap store'.heap copy := by
  obtain ⟨reads, -⟩ := shown_lists_read_back
  exact ⟨packedHeap_literal, by decide +kernel, reads { heap := packedHeap } 0 packedHeap_literal⟩

end Evaluate

end Parlance
