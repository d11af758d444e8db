import Mathlib.Data.List.Basic
import Parlance.Proofs.Text.Cutting
import Parlance.Proofs.Text.Trimming
import Parlance.Statement.Line

/-!
# From a source to its lines

The lines of a program have the numbers of their places in the source, in increasing order. A source
that is put behind another one, on a line of its own, keeps its lines and moves their numbers. How
the other source ends makes no difference: a carriage return at its end belongs to a line end then,
and is a blank otherwise.
-/

namespace Parlance

/-! ## Lines of texts -/

namespace Text

/-- The lines of a text behind a line feed are the last lines of the whole. -/
theorem lines_append (front back : List Char) :
    lines (front ++ '\n' :: back) = (splitChar '\n' front).map dropReturn ++ lines back := by
  obtain ⟨part, parts, hparts⟩ := exists_splitChar '\n' back
  have hne : splitChar '\n' back ≠ [] := by simp [hparts]
  simp only [lines, splitChar_append, List.dropLast_append_of_ne_nil hne,
    List.getLast?_append_of_ne_nil _ hne, List.map_append, List.append_assoc]

end Text

/-! ## Numbered lines -/

namespace Line

/-- The lines among those of a source that are not blank, with numbers behind `start`. -/
def numbered (start : Nat) (sources : List (List Char)) : List Line :=
  (sources.zipIdx start).filterMap fun (line, i) => ofSource? (i + 1) line

/-- A line at another place, so many lines further down. -/
def moved (distance : Nat) (line : Line) : Line :=
  { line with number := line.number + distance }

theorem number_of_ofSource? {number : Nat} {source : List Char} {line : Line}
    (h : ofSource? number source = some line) : line.number = number := by
  unfold ofSource? at h
  dsimp only at h
  split at h
  · cases h
  · cases h
    rfl

theorem ofSource?_moved (number distance : Nat) (source : List Char) :
    ofSource? (number + distance) source = (ofSource? number source).map (moved distance) := by
  unfold ofSource?
  dsimp only
  split <;> rfl

theorem numbered_cons (start : Nat) (source : List Char) (sources : List (List Char)) :
    numbered start (source :: sources) =
      (ofSource? (start + 1) source).toList ++ numbered (start + 1) sources := by
  simp only [numbered, List.zipIdx_cons, List.filterMap_cons]
  cases ofSource? (start + 1) source <;> rfl

theorem numbered_append (start : Nat) (front back : List (List Char)) :
    numbered start (front ++ back) =
      numbered start front ++ numbered (start + front.length) back := by
  simp [numbered, List.zipIdx_append]

theorem numbered_moved (start distance : Nat) (sources : List (List Char)) :
    numbered (start + distance) sources = (numbered start sources).map (moved distance) := by
  induction sources generalizing start with
  | nil => rfl
  | cons source sources ih =>
      have hnext : start + distance + 1 = start + 1 + distance := by omega
      rw [numbered_cons, numbered_cons, hnext, ih, ofSource?_moved, List.map_append]
      cases ofSource? (start + 1) source <;> rfl

/-- The numbers of lines increase. -/
theorem numbered_pairwise (start : Nat) (sources : List (List Char)) :
    (numbered start sources).Pairwise fun a b => a.number < b.number := by
  unfold numbered
  rw [List.pairwise_filterMap]
  have places : (sources.zipIdx start).Pairwise fun x y => x.2 < y.2 := by
    rw [← List.pairwise_map (f := Prod.snd) (R := (· < ·)), List.zipIdx_map_snd]
    exact List.pairwise_lt_range'
  refine places.imp ?_
  intro x y hlt a ha b hb
  rw [number_of_ofSource? ha, number_of_ofSource? hb]
  omega

/-! ## Ends of lines -/

theorem stripCommentFrom_return (quote previous : Option Char) (text : List Char) :
    stripCommentFrom quote previous (text ++ ['\r']) = stripCommentFrom quote previous text ∨
      stripCommentFrom quote previous (text ++ ['\r']) =
        stripCommentFrom quote previous text ++ ['\r'] := by
  induction text generalizing quote previous with
  | nil => exact .inr (by simp [stripCommentFrom])
  | cons c text ih =>
      simp only [List.cons_append, stripCommentFrom]
      split
      · rcases ih (toggleQuote c quote) (some c) with h | h <;> simp [h]
      · split
        · exact .inl rfl
        · rcases ih quote (some c) with h | h <;> simp [h]

theorem trim_return (text : List Char) : Text.trim (text ++ ['\r']) = Text.trim text :=
  Text.trim_append_blank rfl text

/-- A carriage return at the end of a line adds nothing to it. -/
theorem ofSource?_return (number : Nat) (source : List Char) :
    ofSource? number (source ++ ['\r']) = ofSource? number source := by
  have hindent : isIndent '\r' = false := rfl
  have hfront : (source ++ ['\r']).takeWhile isIndent = source.takeWhile isIndent := by
    induction source with
    | nil => rfl
    | cons c source ih => simp [List.takeWhile_cons, ih]
  have hbody : (source ++ ['\r']).dropWhile isIndent = source.dropWhile isIndent ++ ['\r'] := by
    rw [List.dropWhile_append]
    split
    · next hempty =>
      rw [List.isEmpty_iff.mp hempty, List.dropWhile_cons_of_neg (by simp [hindent])]
      rfl
    · rfl
  have htext : Text.trim (stripComment (source.dropWhile isIndent ++ ['\r'])) =
      Text.trim (stripComment (source.dropWhile isIndent)) := by
    rcases stripCommentFrom_return none none (source.dropWhile isIndent) with h | h
    · rw [stripComment, h, stripComment]
    · rw [stripComment, h, trim_return, stripComment]
  simp only [ofSource?, hbody, hfront, htext]

theorem ofSource?_dropReturn (number : Nat) (source : List Char) :
    ofSource? number (Text.dropReturn source) = ofSource? number source := by
  unfold Text.dropReturn Text.before?
  cases h : ['\r'].isSuffixOf? source with
  | none => rfl
  | some front =>
      have hsource : front ++ ['\r'] = source := List.isSuffixOf?_eq_some_iff_append_eq.mp h
      rw [← hsource, Option.getD_some, ofSource?_return]

theorem numbered_dropReturn (start : Nat) (sources : List (List Char)) :
    numbered start (sources.map Text.dropReturn) = numbered start sources := by
  induction sources generalizing start with
  | nil => rfl
  | cons source sources ih =>
      rw [List.map_cons, numbered_cons, numbered_cons, ih, ofSource?_dropReturn]

/-! ## Sources put together -/

theorem ofProgram_eq_numbered (source : List Char) :
    ofProgram source = numbered 0 (Text.lines source) :=
  rfl

/-- A line of a program is what stands between two line feeds, however the last line ends. -/
theorem numbered_splitChar (source : List Char) :
    numbered 0 (Text.splitChar '\n' source) = ofProgram source := by
  obtain ⟨part, parts, hparts⟩ := Text.exists_splitChar '\n' source
  obtain ⟨front, last, hlast⟩ : ∃ front last, Text.splitChar '\n' source = front ++ [last] :=
    ⟨_, _, (List.dropLast_append_getLast (by simp [hparts])).symm⟩
  have hend : Text.lines source =
      front.map Text.dropReturn ++ if last = [] then [] else [last] := by
    simp only [Text.lines, hlast]
    cases last <;> simp
  rw [ofProgram_eq_numbered, hend, hlast, numbered_append, numbered_append, numbered_dropReturn,
    List.length_map]
  split
  · next hnil => rw [hnil]; rfl
  · rfl

/-- A source behind another one, on a line of its own, keeps its lines. -/
theorem ofProgram_append (front back : List Char) :
    ofProgram (front ++ '\n' :: back) =
      ofProgram front ++ (ofProgram back).map (moved (front.count '\n' + 1)) := by
  rw [ofProgram_eq_numbered, Text.lines_append, numbered_append, numbered_dropReturn,
    numbered_splitChar, List.length_map, Text.length_splitChar, numbered_moved,
    ← ofProgram_eq_numbered]

end Line

end Parlance
