import Mathlib.Data.List.Forall2
import Parlance.Proofs.Expr.Growth
import Parlance.Proofs.Expr.Sharing

/-!
# Resolved tokens

Resolving goes through the phrases in scope one after the other and puts a value in the place of
each occurrence. A value fits no phrase, so what was put in stays, and the tokens on both of its
sides do not come together. All that happens to a list of tokens is therefore that some windows of
it, each an occurrence of a phrase, are replaced by one value each; and no occurrence is left.
-/

namespace Parlance

open Eval

/-- Whether a token is a written text or a value that was put in. -/
def Token.isFixed : Token → Bool
  | .str _ => true
  | .value _ => true
  | _ => false

namespace Phrase

/-- A window of tokens is an occurrence of a phrase. -/
def Fits (window pattern : List Token) : Prop :=
  List.Forall₂ (fun candidate wanted => candidate.fits wanted = true) window pattern

/-- The phrases in scope, each with what makes the token in the place of an occurrence: the name of a
variable, and the name of a record with that of one of its properties. -/
inductive Names (heap : Heap) (scope : Bindings) : List Token → Eval Token → Prop
  | ofVariable {n : String} {v : Value} {pattern : List Token} (bound : scope.get? n = some v)
      (phrase : ofText? n = some pattern) : Names heap scope pattern (variableToken v)
  | ofProperty {n p : String} {cell : Nat} {v : Value} {pattern : List Token}
      (bound : scope.get? n = some (.record cell)) (field : (p, v) ∈ heap.fields cell)
      (phrase : ofText? (n ++ " " ++ p) = some pattern) :
      Names heap scope pattern (do return .value (← v.detached))

/-- A piece of resolved tokens: a token as it was, or a value in the place of a window. -/
inductive Piece where
  | kept (t : Token)
  | spliced (window : List Token) (v : Value)

namespace Piece

/-- The tokens that a piece stands for. -/
def source : Piece → List Token
  | .kept t => [t]
  | .spliced window _ => window

/-- The token of a piece. -/
def result : Piece → Token
  | .kept t => t
  | .spliced _ v => .value v

def kept? : Piece → Option Token
  | .kept t => some t
  | .spliced _ _ => none

end Piece

/-! ## Occurrences -/

theorem fits_value (v : Value) (wanted : Token) : (Token.value v).fits wanted = false := by
  cases wanted <;> rfl

theorem fits_str (s : String) {wanted : Token} (h : wanted.isText = false) :
    (Token.str s).fits wanted = false := by
  cases wanted with
  | str t => cases h
  | _ => rfl

theorem ne_nil_of_ofText {text : String} {pattern : List Token} (h : ofText? text = some pattern) :
    pattern ≠ [] := by
  unfold ofText? at h
  split at h
  · cases h
  · split at h <;> cases h
    next hnot =>
    rintro rfl
    exact hnot rfl

theorem isText_of_ofText {text : String} {pattern : List Token} (h : ofText? text = some pattern) :
    ∀ t ∈ pattern, t.isText = false := by
  unfold ofText? at h
  split at h
  · cases h
  · split at h <;> cases h
    next hnot =>
    simp only [Bool.or_eq_true, not_or, Bool.not_eq_true, List.any_eq_false] at hnot
    exact hnot.2

theorem Fits.ne_value {window pattern : List Token} (h : Fits window pattern) (v : Value) :
    .value v ∉ window := by
  induction h with
  | nil => exact nofun
  | @cons candidate wanted window pattern hfits _ ih =>
      intro hmem
      rcases List.mem_cons.mp hmem with rfl | hmem
      · rw [fits_value] at hfits
        cases hfits
      · exact ih hmem

/-- No occurrence of a phrase holds a text or a value. -/
theorem Fits.isFixed {window pattern : List Token} (h : Fits window pattern)
    (hpattern : ∀ t ∈ pattern, t.isText = false) : ∀ t ∈ window, t.isFixed = false := by
  induction h with
  | nil => exact nofun
  | @cons candidate wanted window pattern hfits _ ih =>
      obtain ⟨hwanted, hrest⟩ := List.forall_mem_cons.mp hpattern
      refine List.forall_mem_cons.mpr ⟨?_, ih hrest⟩
      cases candidate with
      | str s =>
          rw [fits_str s hwanted] at hfits
          cases hfits
      | value v =>
          rw [fits_value] at hfits
          cases hfits
      | _ => rfl

theorem startsWith_iff {pattern tokens : List Token} :
    startsWith pattern tokens = true ↔ ∃ window rest, tokens = window ++ rest ∧ Fits window pattern := by
  induction pattern generalizing tokens with
  | nil => exact ⟨fun _ => ⟨[], tokens, rfl, .nil⟩, fun _ => rfl⟩
  | cons wanted pattern ih =>
      cases tokens with
      | nil =>
          refine ⟨nofun, ?_⟩
          rintro ⟨window, rest, hnil, hfits⟩
          cases hfits with
          | cons _ _ => cases hnil
      | cons candidate tokens =>
          rw [startsWith, Bool.and_eq_true, ih]
          constructor
          · rintro ⟨hfits, window, rest, rfl, hwindow⟩
            exact ⟨candidate :: window, rest, rfl, .cons hfits hwindow⟩
          · rintro ⟨window, rest, heq, hfits⟩
            cases hfits with
            | cons hfirst hwindow =>
                obtain ⟨rfl, rfl⟩ := List.cons.inj heq
                exact ⟨hfirst, _, rest, rfl, hwindow⟩

/-! ## Pieces -/

/-- Pieces take tokens to others: some are kept, and windows that fit a phrase are replaced by a value
that is made for the phrase. -/
structure Covers (made : List Token → Value → Prop) (pieces : List Piece)
    (tokens result : List Token) : Prop where
  source : pieces.flatMap Piece.source = tokens
  result : pieces.map Piece.result = result
  fits : ∀ {window v}, .spliced window v ∈ pieces → ∃ pattern, made pattern v ∧ Fits window pattern

namespace Covers

variable {made : List Token → Value → Prop} {pieces : List Piece} {tokens result : List Token}

theorem nil : Covers made [] [] [] :=
  ⟨rfl, rfl, nofun⟩

theorem keep (h : Covers made pieces tokens result) (t : Token) :
    Covers made (.kept t :: pieces) (t :: tokens) (t :: result) := by
  refine ⟨?_, ?_, fun hmem => ?_⟩
  · rw [List.flatMap_cons, h.source]
    rfl
  · rw [List.map_cons, h.result]
    rfl
  · rcases List.mem_cons.mp hmem with hmem | hmem
    · cases hmem
    · exact h.fits hmem

theorem splice (h : Covers made pieces tokens result) {window pattern : List Token} {v : Value}
    (hmade : made pattern v) (hfits : Fits window pattern) :
    Covers made (.spliced window v :: pieces) (window ++ tokens) (.value v :: result) := by
  refine ⟨?_, ?_, fun hmem => ?_⟩
  · rw [List.flatMap_cons, h.source]
    rfl
  · rw [List.map_cons, h.result]
    rfl
  · rcases List.mem_cons.mp hmem with hmem | hmem
    · cases hmem
      exact ⟨pattern, hmade, hfits⟩
    · exact h.fits hmem

theorem tail {piece : Piece} (h : Covers made (piece :: pieces) tokens result) :
    Covers made pieces (pieces.flatMap Piece.source) (pieces.map Piece.result) :=
  ⟨rfl, rfl, fun hmem => h.fits (List.mem_cons_of_mem _ hmem)⟩

theorem refl (tokens : List Token) : Covers made (tokens.map .kept) tokens tokens := by
  induction tokens with
  | nil => exact nil
  | cons t tokens ih => exact ih.keep t

theorem mono {made' : List Token → Value → Prop} (h : Covers made pieces tokens result)
    (hmade : ∀ pattern v, made pattern v → made' pattern v) :
    Covers made' pieces tokens result := by
  refine ⟨h.source, h.result, fun hmem => ?_⟩
  obtain ⟨pattern, hpattern, hfits⟩ := h.fits hmem
  exact ⟨pattern, hmade _ _ hpattern, hfits⟩

/-- The pieces of a result that is put together. -/
theorem split {front back : List Token} (h : Covers made pieces tokens (front ++ back)) :
    ∃ pieces₁ pieces₂ tokens₁ tokens₂, pieces = pieces₁ ++ pieces₂ ∧ tokens = tokens₁ ++ tokens₂ ∧
      Covers made pieces₁ tokens₁ front ∧ Covers made pieces₂ tokens₂ back := by
  obtain ⟨pieces₁, pieces₂, rfl, hfront, hback⟩ := List.map_eq_append_iff.mp h.result
  refine ⟨pieces₁, pieces₂, _, _, rfl, ?_, ⟨rfl, hfront, ?_⟩, ⟨rfl, hback, ?_⟩⟩
  · rw [← h.source, List.flatMap_append]
  · exact fun hmem => h.fits (List.mem_append_left _ hmem)
  · exact fun hmem => h.fits (List.mem_append_right _ hmem)

/-- Where no value stands, nothing has happened. -/
theorem eq_of_ne_value (h : Covers made pieces tokens result) (hvalue : ∀ v, .value v ∉ result) :
    tokens = result ∧ pieces = tokens.map .kept := by
  induction pieces generalizing tokens result with
  | nil =>
      obtain ⟨rfl, rfl, -⟩ := h
      exact ⟨rfl, rfl⟩
  | cons piece pieces ih =>
      have rest := h.tail
      obtain ⟨rfl, rfl, hfits⟩ := h
      obtain ⟨hsource, hpieces⟩ := ih rest fun v hmem => hvalue v (List.mem_cons_of_mem _ hmem)
      cases piece with
      | kept t =>
          rw [List.flatMap_cons, List.map_cons, hsource]
          refine ⟨rfl, ?_⟩
          rw [hsource] at hpieces
          exact congrArg (Piece.kept t :: ·) hpieces
      | spliced window v => exact absurd List.mem_cons_self (hvalue v)

/-- Pieces of pieces: what is replaced later was there from the start. -/
theorem trans {pieces' : List Piece} {result' : List Token}
    (h : Covers made pieces tokens result) (h' : Covers made pieces' result result') :
    ∃ pieces'', Covers made pieces'' tokens result' := by
  induction pieces' generalizing pieces tokens result result' with
  | nil =>
      obtain ⟨rfl, rfl, -⟩ := h'
      exact ⟨pieces, h⟩
  | cons piece pieces' ih =>
      have rest := h'.tail
      obtain ⟨rfl, rfl, hfits⟩ := h'
      rw [List.flatMap_cons] at h
      obtain ⟨pieces₁, pieces₂, tokens₁, tokens₂, rfl, rfl, hfirst, hsecond⟩ := h.split
      obtain ⟨more, hmore⟩ := ih hsecond rest
      cases piece with
      | kept t =>
          refine ⟨pieces₁ ++ more, ?_, ?_, fun hmem => ?_⟩
          · rw [List.flatMap_append, hfirst.source, hmore.source]
          · rw [List.map_append, hfirst.result, hmore.result]
            rfl
          · rcases List.mem_append.mp hmem with hmem | hmem
            · exact hfirst.fits hmem
            · exact hmore.fits hmem
      | spliced window v =>
          obtain ⟨pattern, hmade, hwindow⟩ := hfits List.mem_cons_self
          obtain ⟨rfl, -⟩ := hfirst.eq_of_ne_value hwindow.ne_value
          exact ⟨_, hmore.splice hmade hwindow⟩

/-- Texts and values stay, in their order. -/
theorem filter_isFixed (h : Covers made pieces tokens result)
    (hmade : ∀ pattern v, made pattern v → ∀ t ∈ pattern, t.isText = false) :
    (pieces.filterMap Piece.kept?).filter Token.isFixed = tokens.filter Token.isFixed := by
  induction pieces generalizing tokens result with
  | nil =>
      obtain ⟨rfl, -, -⟩ := h
      rfl
  | cons piece pieces ih =>
      have rest := h.tail
      obtain ⟨rfl, rfl, hfits⟩ := h
      rw [List.flatMap_cons, List.filter_append, ← ih rest]
      cases piece with
      | kept t => exact List.filter_append [t] _
      | spliced window v =>
          obtain ⟨pattern, hpattern, hwindow⟩ := hfits List.mem_cons_self
          have hnone : window.filter Token.isFixed = [] :=
            List.filter_eq_nil_iff.mpr fun t ht =>
              by simp [hwindow.isFixed (hmade _ _ hpattern) t ht]
          rw [List.filterMap_cons_none rfl]
          exact (congrArg (· ++ _) hnone).symm

end Covers

/-! ## Occurrences that are left -/

/-- No occurrence of a phrase is left. -/
def Free (pattern tokens : List Token) : Prop :=
  ∀ window, window <:+: tokens → ¬ Fits window pattern

/-- Replacing other phrases makes no new occurrence. -/
theorem Free.of_covers {made : List Token → Value → Prop} {pieces : List Piece}
    {tokens result pattern : List Token} (h : Free pattern tokens)
    (covers : Covers made pieces tokens result) : Free pattern result := by
  rintro window ⟨front, back, rfl⟩ hfits
  rw [List.append_assoc] at covers
  obtain ⟨_, _, tokens₁, _, -, rfl, -, hrest⟩ := covers.split
  obtain ⟨_, _, tokens₂, tokens₃, -, rfl, hwindow, -⟩ := hrest.split
  obtain ⟨rfl, -⟩ := hwindow.eq_of_ne_value hfits.ne_value
  exact h _ ⟨tokens₁, tokens₃, by rw [List.append_assoc]⟩ hfits

theorem Free.nil {pattern : List Token} (hpattern : pattern ≠ []) : Free pattern [] := by
  intro window hwindow hfits
  rw [List.infix_nil.mp hwindow] at hfits
  cases hfits
  exact hpattern rfl

/-- No occurrence begins with a value. -/
theorem Free.cons_value {pattern tokens : List Token} (hpattern : pattern ≠ [])
    (h : Free pattern tokens) (v : Value) : Free pattern (.value v :: tokens) := by
  intro window hwindow hfits
  rcases List.infix_cons_iff.mp hwindow with ⟨_, heq⟩ | hinfix
  · cases hfits with
    | nil => exact hpattern rfl
    | cons hfirst hmore =>
        obtain ⟨rfl, -⟩ := List.cons.inj heq
        rw [fits_value] at hfirst
        cases hfirst
  · exact h window hinfix hfits

/-- An occurrence at the front holds no value, so it was there before the rest was replaced. -/
theorem Free.cons {made : List Token → Value → Prop} {pieces : List Piece}
    {pattern tokens result : List Token} {token : Token} (h : Free pattern result)
    (covers : Covers made pieces tokens result)
    (hfront : ¬ startsWith pattern (token :: tokens) = true) : Free pattern (token :: result) := by
  intro window hwindow hfits
  rcases List.infix_cons_iff.mp hwindow with ⟨behind, heq⟩ | hinfix
  · have hkept := covers.keep token
    rw [← heq] at hkept
    obtain ⟨_, _, _, _, -, htokens, hcovered, -⟩ := hkept.split
    obtain ⟨rfl, -⟩ := hcovered.eq_of_ne_value hfits.ne_value
    exact hfront (startsWith_iff.mpr ⟨_, _, htokens, hfits⟩)
  · exact h window hinfix hfits

/-! ## One phrase -/

theorem replaceFrom_drop (pattern : List Token) (new : Eval Token) (skip : Nat)
    (tokens : List Token) :
    replaceFrom pattern new skip tokens = replaceFrom pattern new 0 (tokens.drop skip) := by
  induction tokens generalizing skip with
  | nil => cases skip <;> rfl
  | cons token tokens ih =>
      cases skip with
      | zero => rfl
      | succ skip => exact ih skip

/-- The occurrence at the front, and the tokens behind it that are gone on with. -/
theorem exists_window {pattern tokens : List Token} {token : Token} (hpattern : pattern ≠ [])
    (h : startsWith pattern (token :: tokens) = true) :
    ∃ window, token :: tokens = window ++ tokens.drop (pattern.length - 1) ∧
      Fits window pattern := by
  obtain ⟨window, behind, htokens, hfits⟩ := startsWith_iff.mp h
  cases window with
  | nil =>
      cases hfits
      exact absurd rfl hpattern
  | cons first window =>
      rw [List.cons_append] at htokens
      obtain ⟨rfl, rfl⟩ := List.cons.inj htokens
      refine ⟨token :: window, ?_, hfits⟩
      rw [← hfits.length_eq, List.length_cons, Nat.add_sub_cancel, List.drop_left, List.cons_append]

/-- A computation that gives values only, and adds to the heap at most. -/
structure MakesValues (new : Eval Token) : Prop where
  grows : Grows new
  value {store store' : Store} {t : Token} (h : new store = (.ok t, store')) : ∃ v, t = .value v

/-- Values that a computation gives while the heap grows. -/
def MadeBy (base : Heap) (new : Eval Token) (v : Value) : Prop :=
  ∃ store store' : Store, base.Extends store.heap ∧ new store = (.ok (.value v), store')

/-- Replacing the occurrences of a phrase leaves none. -/
theorem replaceFrom_covers {pattern : List Token} {new : Eval Token} (hpattern : pattern ≠ [])
    (hnew : MakesValues new) {base : Heap} {store store' : Store} (hbase : base.Extends store.heap)
    {tokens result : List Token}
    (h : replaceFrom pattern new 0 tokens store = (.ok result, store')) :
    (∃ pieces, Covers (fun p v => p = pattern ∧ MadeBy base new v) pieces tokens result) ∧
      Free pattern result := by
  induction hlength : tokens.length using Nat.strongRecOn generalizing tokens result store with
  | ind length ih =>
      subst hlength
      cases tokens with
      | nil =>
          cases h
          exact ⟨⟨[], .nil⟩, .nil hpattern⟩
      | cons token tokens =>
          rw [replaceFrom] at h
          split at h
          · next hstarts =>
            obtain ⟨t, middle, ht, hbind⟩ := bind_eq_ok.mp h
            obtain ⟨rest, _, hrest, hpure⟩ := bind_eq_ok.mp hbind
            cases hpure
            obtain ⟨v, rfl⟩ := hnew.value ht
            have hmiddle : base.Extends middle.heap := by
              have hgrows := hnew.grows store
              rw [ht] at hgrows
              exact hbase.trans hgrows
            obtain ⟨window, htokens, hfits⟩ := exists_window hpattern hstarts
            rw [replaceFrom_drop] at hrest
            have hshorter : (tokens.drop (pattern.length - 1)).length < (token :: tokens).length := by
              rw [List.length_drop, List.length_cons]
              omega
            obtain ⟨⟨pieces, hcovers⟩, hfree⟩ := ih _ hshorter hmiddle hrest rfl
            have hspliced := hcovers.splice ⟨rfl, store, middle, hbase, ht⟩ hfits
            exact ⟨⟨_, htokens ▸ hspliced⟩, hfree.cons_value hpattern v⟩
          · next hstarts =>
            obtain ⟨rest, _, hrest, hpure⟩ := bind_eq_ok.mp h
            cases hpure
            obtain ⟨⟨pieces, hcovers⟩, hfree⟩ := ih _ (Nat.lt_succ_self _) hbase hrest rfl
            exact ⟨⟨_, hcovers.keep token⟩, hfree.cons hcovers hstarts⟩

/-! ## One phrase after another -/

/-- Replaces phrases one after another. -/
def replaceAll (phrases : List (String × Eval Token)) (tokens : List Token) : Eval (List Token) :=
  phrases.foldlM (fun tokens phrase => replace phrase.1 phrase.2 tokens) tokens

theorem replace_covers {text : String} {new : Eval Token} (hnew : MakesValues new) {base : Heap}
    {store store' : Store} (hbase : base.Extends store.heap) {tokens result : List Token}
    (h : replace text new tokens store = (.ok result, store')) :
    (∃ pieces, Covers (fun pattern v => ofText? text = some pattern ∧ MadeBy base new v) pieces
      tokens result) ∧ ∀ pattern, ofText? text = some pattern → Free pattern result := by
  unfold replace at h
  cases htext : ofText? text with
  | none =>
      rw [htext] at h
      cases h
      exact ⟨⟨_, .refl _⟩, nofun⟩
  | some pattern =>
      rw [htext] at h
      obtain ⟨⟨pieces, hcovers⟩, hfree⟩ :=
        replaceFrom_covers (ne_nil_of_ofText htext) hnew hbase h
      refine ⟨⟨pieces, hcovers.mono ?_⟩, ?_⟩
      · rintro _ v ⟨rfl, hmade⟩
        exact ⟨rfl, hmade⟩
      · rintro _ ⟨⟩
        exact hfree

/-- Replacing phrases one after another leaves an occurrence of none of them. -/
theorem replaceAll_covers {phrases : List (String × Eval Token)}
    (hphrases : ∀ phrase ∈ phrases, MakesValues phrase.2) {base : Heap} {store store' : Store}
    (hbase : base.Extends store.heap) {tokens result : List Token}
    (h : replaceAll phrases tokens store = (.ok result, store')) :
    (∃ pieces, Covers (fun pattern v => ∃ phrase ∈ phrases,
      ofText? phrase.1 = some pattern ∧ MadeBy base phrase.2 v) pieces tokens result) ∧
      ∀ phrase ∈ phrases, ∀ pattern, ofText? phrase.1 = some pattern → Free pattern result := by
  induction phrases generalizing tokens store with
  | nil =>
      cases h
      exact ⟨⟨_, .refl _⟩, nofun⟩
  | cons phrase phrases ih =>
      obtain ⟨hphrase, hothers⟩ := List.forall_mem_cons.mp hphrases
      rw [replaceAll, List.foldlM_cons] at h
      obtain ⟨middle, store'', hfirst, hrest⟩ := bind_eq_ok.mp h
      obtain ⟨⟨pieces, hcovers⟩, hfree⟩ := replace_covers hphrase hbase hfirst
      have hgrown : base.Extends store''.heap := by
        have hgrows := grows_replace phrase.1 hphrase.grows tokens store
        rw [hfirst] at hgrows
        exact hbase.trans hgrows
      obtain ⟨⟨pieces', hcovers'⟩, hfree'⟩ := ih hothers hgrown hrest
      refine ⟨(hcovers.mono ?_).trans (hcovers'.mono ?_), List.forall_mem_cons.mpr ⟨?_, hfree'⟩⟩
      · exact fun pattern v hmade => ⟨phrase, List.mem_cons_self, hmade⟩
      · rintro pattern v ⟨other, hother, hmade⟩
        exact ⟨other, List.mem_cons_of_mem _ hother, hmade⟩
      · -- What is replaced later makes no new occurrence of the first phrase.
        exact fun pattern hpattern => (hfree pattern hpattern).of_covers hcovers'

/-! ## The phrases in scope -/

/-- The phrases of the properties of some records. -/
def propertyPhrases (records : List (String × Entries Value)) : List (String × Eval Token) :=
  records.flatMap fun record => record.2.map fun property =>
    (record.1 ++ " " ++ property.1, do return .value (← property.2.detached))

/-- The phrases of the variables in scope. -/
def variablePhrases (scope : Bindings) : List (String × Eval Token) :=
  scope.entries.map fun entry => (entry.1, variableToken entry.2)

theorem replaceProperties_eq (records : List (String × Entries Value)) (tokens : List Token) :
    replaceProperties records tokens = replaceAll (propertyPhrases records) tokens := by
  induction records generalizing tokens with
  | nil => rfl
  | cons record records ih =>
      rw [replaceProperties, List.foldlM_cons, replaceAll, propertyPhrases, List.flatMap_cons,
        List.foldlM_append, List.foldlM_map]
      exact congrArg _ (funext ih)

theorem replaceVariables_eq (scope : Bindings) (tokens : List Token) :
    replaceVariables scope tokens = replaceAll (variablePhrases scope) tokens := by
  rw [replaceVariables, replaceAll, variablePhrases, List.foldlM_map]

theorem makesValues_property (v : Value) : MakesValues (do return .value (← v.detached)) where
  grows := v.grows_detached.bind fun _ => .pure _
  value h := by
    obtain ⟨copy, _, -, hpure⟩ := bind_eq_ok.mp h
    cases hpure
    exact ⟨copy, rfl⟩

theorem makesValues_variable (v : Value) : MakesValues (variableToken v) where
  grows := grows_variableToken v
  value h := by
    cases v with
    | list cell => exact (makesValues_property (.list cell)).value h
    | record cell =>
        obtain ⟨heap, _, -, hpure⟩ := bind_eq_ok.mp h
        cases hpure
        exact ⟨_, rfl⟩
    | _ =>
        cases h
        exact ⟨_, rfl⟩

theorem names_iff {heap : Heap} {scope : Bindings} {pattern : List Token} {make : Eval Token} :
    Names heap scope pattern make ↔ ∃ phrase ∈ propertyPhrases (records heap scope) ++
      variablePhrases scope, ofText? phrase.1 = some pattern ∧ phrase.2 = make := by
  constructor
  · intro h
    cases h with
    | @ofVariable n v _ bound phrase =>
        refine ⟨(n, variableToken v), List.mem_append_right _ ?_, phrase, rfl⟩
        exact List.mem_map_of_mem ((scope.mem_entries_iff (n, v)).mpr bound)
    | @ofProperty n p cell v _ bound field phrase =>
        refine ⟨(n ++ " " ++ p, _), List.mem_append_left _ ?_, phrase, rfl⟩
        refine List.mem_flatMap.mpr ⟨(n, heap.fields cell), ?_, List.mem_map_of_mem field⟩
        exact List.mem_filterMap.mpr ⟨(n, .record cell), (scope.mem_entries_iff _).mpr bound, rfl⟩
  · rintro ⟨phrase, hphrase, htext, rfl⟩
    rcases List.mem_append.mp hphrase with hproperty | hvariable
    · obtain ⟨record, hrecord, hfields⟩ := List.mem_flatMap.mp hproperty
      obtain ⟨cell, hcell, heq⟩ := Evaluate.mem_records hrecord
      obtain ⟨field, hfield, rfl⟩ := List.mem_map.mp hfields
      exact .ofProperty hcell (heq ▸ hfield) htext
    · obtain ⟨entry, hentry, rfl⟩ := List.mem_map.mp hvariable
      exact .ofVariable ((scope.mem_entries_iff _).mp hentry) htext

theorem makesValues_of_mem {records : List (String × Entries Value)} {scope : Bindings} :
    ∀ phrase ∈ propertyPhrases records ++ variablePhrases scope, MakesValues phrase.2 := by
  intro phrase hphrase
  rcases List.mem_append.mp hphrase with hproperty | hvariable
  · obtain ⟨record, -, hfields⟩ := List.mem_flatMap.mp hproperty
    obtain ⟨field, -, rfl⟩ := List.mem_map.mp hfields
    exact makesValues_property field.2
  · obtain ⟨entry, -, rfl⟩ := List.mem_map.mp hvariable
    exact makesValues_variable entry.2

/-- A value takes the place of a phrase in scope. -/
def Stands (heap : Heap) (scope : Bindings) (pattern : List Token) (v : Value) : Prop :=
  ∃ make, Names heap scope pattern make ∧ MadeBy heap make v

/-- Resolving replaces whole occurrences of phrases in scope by one value each, until no occurrence
of any is left. No written text and no value that was there is part of an occurrence, and two tokens
that stand together afterwards stood together before. -/
theorem resolving_reaches_normal_form (scope : Bindings) (tokens result : List Token)
    (store store' : Store)
    (h : (do
      let ts ← replaceProperties (records store.heap scope) tokens
      replaceVariables scope ts : Eval (List Token)) store = (.ok result, store')) :
    (∃ pieces, Covers (Stands store.heap scope) pieces tokens result ∧
      (pieces.filterMap Piece.kept?).filter Token.isFixed = tokens.filter Token.isFixed ∧
      (∀ window v, .spliced window v ∈ pieces → ∀ t ∈ window, t.isFixed = false) ∧
      ∀ front back t u, pieces = front ++ .kept t :: .kept u :: back →
        tokens = front.flatMap Piece.source ++ t :: u :: back.flatMap Piece.source) ∧
      ∀ pattern make, Names store.heap scope pattern make →
        ∀ window, window <:+: result → ¬ Fits window pattern := by
  simp only [replaceProperties_eq, replaceVariables_eq, replaceAll] at h
  rw [← List.foldlM_append] at h
  obtain ⟨⟨pieces, hcovers⟩, hfree⟩ :=
    replaceAll_covers makesValues_of_mem (Heap.Extends.refl store.heap) h
  have hstands : Covers (Stands store.heap scope) pieces tokens result := by
    refine hcovers.mono ?_
    rintro pattern v ⟨phrase, hphrase, htext, hmade⟩
    exact ⟨phrase.2, names_iff.mpr ⟨phrase, hphrase, htext, rfl⟩, hmade⟩
  have hplain (pattern : List Token) (v : Value) (hmade : Stands store.heap scope pattern v) :
      ∀ t ∈ pattern, t.isText = false := by
    obtain ⟨make, hnames, -⟩ := hmade
    obtain ⟨phrase, -, htext, -⟩ := names_iff.mp hnames
    exact isText_of_ofText htext
  refine ⟨⟨pieces, hstands, hstands.filter_isFixed hplain, ?_, ?_⟩, ?_⟩
  · intro window v hmem
    obtain ⟨pattern, hmade, hfits⟩ := hstands.fits hmem
    exact hfits.isFixed (hplain pattern v hmade)
  · rintro front back t u rfl
    rw [← hstands.source, List.flatMap_append]
    rfl
  · intro pattern make hnames
    obtain ⟨phrase, hphrase, htext, -⟩ := names_iff.mp hnames
    exact hfree phrase hphrase pattern htext

/-- A hero with gold, and a variable whose name overlaps with that of the property. -/
def heroScope : Bindings :=
  NameMap.ofList [("the hero", .record 0), ("hero gold", .int 7)]

def heroStore : Store :=
  { heap := { records := #[[("gold", .int 5)]] } }

def heroTokens : List Token :=
  [.name "the", .name "hero", .name "gold", .sign .plus, .name "hero", .name "gold", .sign .plus,
    .str "hero gold", .value (.str "hero gold")]

def heroResolved : List Token :=
  [.value (.int 5), .sign .plus, .value (.int 7), .sign .plus, .str "hero gold",
    .value (.str "hero gold")]

/-- The property goes first, so its last two words are not taken for the variable; the texts stay. -/
theorem resolving_reaches_normal_form_hero :
    (do
      let ts ← replaceProperties (records heroStore.heap heroScope) heroTokens
      replaceVariables heroScope ts : Eval (List Token)) heroStore = (.ok heroResolved, heroStore) ∧
      (∃ pieces, Covers (Stands heroStore.heap heroScope) pieces heroTokens heroResolved ∧
        (pieces.filterMap Piece.kept?).filter Token.isFixed =
          [.str "hero gold", .value (.str "hero gold")]) ∧
      ∀ window, window <:+: heroResolved → ¬ Fits window [.name "hero", .name "gold"] := by
  obtain ⟨⟨pieces, hcovers, hfixed, -, -⟩, hfree⟩ :=
    resolving_reaches_normal_form heroScope heroTokens heroResolved heroStore heroStore rfl
  exact ⟨rfl, ⟨pieces, hcovers, hfixed⟩, hfree _ _ (.ofVariable (n := "hero gold") rfl rfl)⟩

end Phrase

end Parlance
