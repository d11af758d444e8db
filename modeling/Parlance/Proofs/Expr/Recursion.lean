import Mathlib.Data.List.Basic
import Parlance.Expr.Evaluate
import Parlance.Proofs.Expr.Spelling
import Parlance.Proofs.Text.Trimming

/-!
# Evaluating the text of an index

The text of an index is shorter than the text that the index stands in. So evaluating a text never
runs out of fuel, and satisfies the equation that gives the value of an indexed name by the value
of its index.
-/

namespace Parlance

namespace Evaluate

/-- The text of an index leaves out the bracket in front of it. -/
theorem length_lt_of_indexed {text : List Char} {ls : List Lexeme} {n : String} {inner : List Char}
    (hscan : Lexeme.scan text = .ok ls) (h : indexed? ls = some (n, inner)) :
    inner.length < text.length := by
  have spelled := Lexeme.scan_spell hscan
  unfold indexed? at h
  split at h
  · next first opening rest =>
    split at h
    · next _ _ name closing hname hclosing =>
      split at h
      · cases h
        have hrest : rest.dropLast ++ [closing] = rest := List.dropLast_append_getLast? _ hclosing
        have hopening := List.length_pos_iff.mpr (spelled.text_ne_nil (l := opening) (by simp))
        have hlength := spelled.length_le
        rw [← hrest] at hlength
        simp only [List.flatMap_cons, List.flatMap_append, List.flatMap_nil, List.length_append,
          Lexeme.chars, List.append_nil] at hlength ⊢
        omega
      · cases h
    · cases h
  · cases h

theorem lexedWith_congr (scope : Bindings) {f g : List Char → Eval Value} {text : List Char}
    {ls : List Lexeme} (hscan : Lexeme.scan text = .ok ls)
    (h : ∀ inner, inner.length < text.length → f inner = g inner) :
    lexedWith scope f text ls = lexedWith scope g text ls := by
  unfold lexedWith
  cases singleName? scope ls with
  | some n => rfl
  | none =>
      cases hindexed : indexed? ls with
      | none => rfl
      | some indexed =>
          obtain ⟨n, inner⟩ := indexed
          dsimp only
          rw [h inner (length_lt_of_indexed hscan hindexed)]

/-- Evaluating a text depends on the way to evaluate an index only for shorter texts. -/
theorem textWith_congr (scope : Bindings) {f g : List Char → Eval Value} {source : List Char}
    (h : ∀ inner, inner.length < source.length → f inner = g inner) :
    textWith scope f source = textWith scope g source := by
  have htrim := (Text.trim_sublist source).length_le
  unfold textWith
  refine bind_congr fun asWritten => ?_
  cases asWritten with
  | some v => rfl
  | none =>
      dsimp only
      cases hlex : lexemes (Text.trim source) with
      | error e => rfl
      | ok ls =>
          have hscan : Lexeme.scan (Text.trim source) = .ok ls := by
            unfold lexemes at hlex
            split at hlex
            · cases hlex
            · cases hlex
              assumption
          exact lexedWith_congr scope hscan
            fun inner hinner => h inner (Nat.lt_of_lt_of_le hinner htrim)

/-- Any two amounts of fuel that exceed the length of a text evaluate it alike. -/
theorem textFuel_eq (scope : Bindings) (fuel fuel' : Nat) (source : List Char)
    (hfuel : source.length < fuel) (hfuel' : source.length < fuel') :
    textFuel scope fuel source = textFuel scope fuel' source := by
  induction fuel generalizing fuel' source with
  | zero => omega
  | succ fuel ih =>
      obtain ⟨fuel', rfl⟩ : ∃ n, fuel' = n + 1 := ⟨fuel' - 1, by omega⟩
      simp only [textFuel]
      refine textWith_congr scope fun inner hinner => ?_
      exact ih fuel' inner (by omega) (by omega)

/-- Evaluation without fuel: the value of an indexed name comes from the value of its index. -/
theorem text_eq_textWith (scope : Bindings) (source : String) :
    text scope source =
      textWith scope (fun inner => text scope (String.ofList inner)) source.toList := by
  unfold text
  simp only [textFuel]
  refine textWith_congr scope fun inner hinner => ?_
  rw [String.toList_ofList]
  exact textFuel_eq scope _ _ inner hinner (Nat.lt_succ_self _)

end Evaluate

end Parlance
