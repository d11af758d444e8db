import Mathlib.Data.String.Basic
import Parlance.Expr.Evaluate
import Parlance.Proofs.Expr.Alone

/-!
# The places of tokens

The place of a token is counted in bytes, from the lengths of the spellings and blanks in front of it.
So the places follow one another without overlapping, each begins and ends between two characters, and
cutting the text there gives back the spelling. Whatever no place covers is a blank.
-/

namespace Parlance

/-! ## Bytes of a text -/

namespace Text

theorem byteLength_append (front back : List Char) :
    byteLength (front ++ back) = byteLength front + byteLength back := by
  rw [byteLength_eq, byteLength_eq, byteLength_eq, String.ofList_append,
    String.utf8ByteSize_append]

theorem byteLength_cons (c : Char) (text : List Char) :
    byteLength (c :: text) = c.utf8Size + byteLength text := by
  rw [byteLength_eq, byteLength_eq, String.ofList_cons, String.utf8ByteSize_append,
    String.utf8ByteSize_singleton]

theorem byteLength_pos {text : List Char} (h : text ≠ []) : 0 < byteLength text := by
  obtain ⟨c, text, rfl⟩ := List.exists_cons_of_ne_nil h
  rw [byteLength_cons]
  exact Nat.add_pos_left c.utf8Size_pos _

/-- A part of a text stands between the bytes that its length and the length in front of it say. -/
theorem extract_middle (front middle back : List Char) :
    String.Pos.Raw.extract (String.ofList (front ++ (middle ++ back))) ⟨byteLength front⟩
      ⟨byteLength front + byteLength middle⟩ = String.ofList middle := by
  rw [byteLength_eq, byteLength_eq, String.utf8ByteSize_ofList, String.utf8ByteSize_ofList,
    ← List.append_assoc]
  exact String.extract_of_valid front middle back

/-- The bytes in front of a part of a text end between two characters. -/
theorem isValid_byteLength (front back : List Char) :
    (⟨byteLength front⟩ : String.Pos.Raw).IsValid (String.ofList (front ++ back)) := by
  refine String.Pos.Raw.isValid_iff_exists_append.mpr
    ⟨String.ofList front, String.ofList back, String.ofList_append, ?_⟩
  rw [byteLength_eq]
  rfl

/-- Where two texts meet, a character stands in the one or in the other. -/
theorem append_eq_append_cons {left right front back : List Char} {c : Char}
    (h : left ++ right = front ++ c :: back) :
    (∃ more, left = front ++ c :: more) ∨
      ∃ more, front = left ++ more ∧ right = more ++ c :: back := by
  rcases List.append_eq_append_iff.mp h with ⟨more, hfront, hright⟩ | ⟨more, hleft, hback⟩
  · exact .inr ⟨more, hfront, hright⟩
  · cases more with
    | nil => exact .inr ⟨[], by rw [hleft, List.append_nil, List.append_nil], hback.symm⟩
    | cons d more =>
        obtain ⟨rfl, -⟩ := List.cons.inj hback
        exact .inl ⟨more, hleft⟩

end Text

namespace Lexeme

open Text (byteLength byteLength_append byteLength_cons)

/-! ## Where lexemes are spelled -/

/-- The text that a span takes. -/
def Span.slice (source : String) (s : Span) : String :=
  String.Pos.Raw.extract source ⟨s.start⟩ ⟨s.stop⟩

/-- A span takes the bytes of a text in which a lexeme is spelled. -/
inductive Marks (source : List Char) (l : Lexeme) : Span → Prop
  | mk {front back : List Char} (split : source = front ++ (l.text ++ back)) :
      Marks source l ⟨l.token, byteLength front, byteLength front + byteLength l.text⟩

theorem Spell.marks {ls : List Lexeme} {source : List Char} (h : Spell ls source)
    (front : List Char) :
    List.Forall₂ (Marks (front ++ source)) ls (spansFrom (byteLength front) ls) := by
  induction h generalizing front with
  | nil _ => exact .nil
  | @cons l ls rest _ _ _ ih =>
      have hstart : byteLength front + byteLength l.blank = byteLength (front ++ l.blank) :=
        (byteLength_append _ _).symm
      have hstop : byteLength (front ++ l.blank) + byteLength l.text =
          byteLength (front ++ l.blank ++ l.text) := (byteLength_append _ _).symm
      have hmore := ih (front ++ l.blank ++ l.text)
      rw [← hstop, List.append_assoc, List.append_assoc] at hmore
      rw [spansFrom, hstart]
      exact .cons (.mk (List.append_assoc _ _ _).symm) hmore

namespace Marks

variable {source : List Char} {l : Lexeme} {s : Span}

theorem token_eq (h : Marks source l s) : s.token = l.token := by
  cases h
  rfl

theorem start_lt_stop (h : Marks source l s) (hne : l.text ≠ []) : s.start < s.stop := by
  cases h
  exact Nat.lt_add_of_pos_right (Text.byteLength_pos hne)

theorem stop_le (h : Marks source l s) : s.stop ≤ byteLength source := by
  cases h with
  | mk split =>
      rw [split, byteLength_append, byteLength_append, ← Nat.add_assoc]
      exact Nat.le_add_right _ _

theorem isValid (h : Marks source l s) :
    (⟨s.start⟩ : String.Pos.Raw).IsValid (String.ofList source) ∧
      (⟨s.stop⟩ : String.Pos.Raw).IsValid (String.ofList source) := by
  cases h with
  | @mk front back split =>
      refine ⟨split ▸ Text.isValid_byteLength front _, ?_⟩
      rw [split, ← List.append_assoc, ← byteLength_append]
      exact Text.isValid_byteLength (front ++ l.text) back

theorem slice_eq (h : Marks source l s) : s.slice (String.ofList source) = String.ofList l.text := by
  cases h with
  | mk split =>
      rw [Span.slice, split]
      exact Text.extract_middle _ _ _

end Marks

theorem exists_marked {source : List Char} {ls : List Lexeme} {ss : List Span}
    (h : List.Forall₂ (Marks source) ls ss) : ∀ s ∈ ss, ∃ l ∈ ls, Marks source l s := by
  induction h with
  | nil => exact nofun
  | cons hmarks _ ih =>
      refine List.forall_mem_cons.mpr ⟨⟨_, List.mem_cons_self, hmarks⟩, fun s hs => ?_⟩
      obtain ⟨l, hl, hmarks⟩ := ih s hs
      exact ⟨l, List.mem_cons_of_mem _ hl, hmarks⟩

theorem slices_eq {source : List Char} {ls : List Lexeme} {ss : List Span}
    (h : List.Forall₂ (Marks source) ls ss) :
    ss.map (Span.slice (String.ofList source)) = ls.map fun l => String.ofList l.text := by
  induction h with
  | nil => rfl
  | cons hmarks _ ih => rw [List.map_cons, List.map_cons, hmarks.slice_eq, ih]

theorem spansFrom_tokens (offset : Nat) (ls : List Lexeme) :
    (spansFrom offset ls).map Span.token = ls.map Lexeme.token := by
  induction ls generalizing offset with
  | nil => rfl
  | cons l ls ih => rw [spansFrom, List.map_cons, List.map_cons, ih]

theorem spansFrom_ordered (ls : List Lexeme) (offset : Nat) :
    (∀ s ∈ spansFrom offset ls, offset ≤ s.start) ∧
      (spansFrom offset ls).Pairwise fun s t => s.stop ≤ t.start := by
  induction ls generalizing offset with
  | nil => exact ⟨nofun, .nil⟩
  | cons l ls ih =>
      obtain ⟨hstarts, hordered⟩ := ih (offset + byteLength l.blank + byteLength l.text)
      rw [spansFrom, List.forall_mem_cons, List.pairwise_cons]
      refine ⟨⟨Nat.le_add_right _ _, fun s hs => ?_⟩, hstarts, hordered⟩
      have := hstarts s hs
      omega

/-- Every character of the text is a blank or stands in a span. -/
theorem Spell.covered {ls : List Lexeme} {source : List Char} (h : Spell ls source)
    {front back : List Char} {c : Char} (hc : source = front ++ c :: back) (offset : Nat) :
    Text.isBlank c = true ∨ ∃ s ∈ spansFrom offset ls,
      s.start ≤ offset + byteLength front ∧ offset + byteLength front + c.utf8Size ≤ s.stop := by
  induction h generalizing front offset with
  | nil blank => exact .inl (blank c (hc ▸ List.mem_append_right front List.mem_cons_self))
  | @cons l ls rest blank _ _ ih =>
      -- The character stands among the blanks, in the spelling or behind it.
      rcases Text.append_eq_append_cons hc with ⟨more, hblank⟩ | ⟨front', rfl, hrest⟩
      · exact .inl (blank c (hblank ▸ List.mem_append_right front List.mem_cons_self))
      · rcases Text.append_eq_append_cons hrest with ⟨more, htext⟩ | ⟨front'', rfl, hbehind⟩
        · refine .inr ⟨_, List.mem_cons_self, ?_⟩
          rw [htext]
          simp only [byteLength_append, byteLength_cons]
          omega
        · rcases ih hbehind (offset + byteLength l.blank + byteLength l.text) with hblank | ⟨s, hs, hin⟩
          · exact .inl hblank
          · refine .inr ⟨s, List.mem_cons_of_mem _ hs, ?_⟩
            rw [byteLength_append, byteLength_append]
            omega

/-! ## Spans of a text -/

/-- Spans take the bytes of a text one after another, and only blanks are left. -/
structure Tiles (source : String) (spans : List Span) : Prop where
  nonempty : ∀ s ∈ spans, s.start < s.stop
  within : ∀ s ∈ spans, s.stop ≤ source.utf8ByteSize
  /-- Spans begin and end between two characters. -/
  boundary : ∀ s ∈ spans, (⟨s.start⟩ : String.Pos.Raw).IsValid source ∧
    (⟨s.stop⟩ : String.Pos.Raw).IsValid source
  ordered : spans.Pairwise fun s t => s.stop ≤ t.start
  covered : ∀ (front back : List Char) (c : Char), source.toList = front ++ c :: back →
    Text.isBlank c = true ∨
      ∃ s ∈ spans, s.start ≤ byteLength front ∧ byteLength front + c.utf8Size ≤ s.stop

/-- The tokens of spans can be read off what the spans take from a text. -/
structure Independent (source : String) (tokenSpans : List Span) : Prop where
  /-- What a span takes is a single token from end to end. -/
  alone : ∀ s ∈ tokenSpans, (scan (s.slice source).toList).map spans =
    .ok [⟨s.token, 0, (s.slice source).utf8ByteSize⟩]
  joined : Token.scan (" ".intercalate (tokenSpans.map (Span.slice source))).toList =
    .ok (tokenSpans.map Span.token)

theorem Spell.tiles {ls : List Lexeme} {source : List Char} (h : Spell ls source) :
    Tiles (String.ofList source) (spans ls) := by
  have hmarked : ∀ s ∈ spans ls, ∃ l ∈ ls, Marks source l s := exists_marked (h.marks [])
  refine ⟨fun s hs => ?_, fun s hs => ?_, fun s hs => ?_, (spansFrom_ordered ls 0).2, ?_⟩
  · obtain ⟨l, hl, hmarks⟩ := hmarked s hs
    exact hmarks.start_lt_stop (h.text_ne_nil hl)
  · obtain ⟨l, -, hmarks⟩ := hmarked s hs
    exact Text.byteLength_eq source ▸ hmarks.stop_le
  · obtain ⟨l, -, hmarks⟩ := hmarked s hs
    exact hmarks.isValid
  · intro front back c hc
    rw [String.toList_ofList] at hc
    have hcovered := h.covered hc 0
    rwa [Nat.zero_add] at hcovered

theorem spans_singleton (text : List Char) (t : Token) :
    spans [⟨[], text, t⟩] = [⟨t, 0, byteLength text⟩] := by
  simp [spans, spansFrom, byteLength]

theorem independent_of_scan {source : List Char} {ls : List Lexeme} (h : scan source = .ok ls) :
    Independent (String.ofList source) (spans ls) := by
  have halone := scan_alone h
  have hmarks : List.Forall₂ (Marks source) ls (spans ls) := (scan_spell h).marks []
  refine ⟨fun s hs => ?_, ?_⟩
  · obtain ⟨l, hl, hmark⟩ := exists_marked hmarks s hs
    rw [hmark.slice_eq, String.toList_ofList, halone l hl, hmark.token_eq, ← Text.byteLength_eq,
      ← spans_singleton]
    rfl
  · have htexts : (ls.map fun l => String.ofList l.text).map String.toList =
        ls.map Lexeme.text := by simp
    rw [slices_eq hmarks, String.toList_intercalate, htexts]
    exact (Token.scan_intercalate halone).trans (congrArg Except.ok (spansFrom_tokens 0 ls).symm)

/-- The spans of a text that is cut into tokens tile it up to blanks, and each of its tokens is the one
that the bytes of its span are by themselves. -/
theorem spans_tile_the_text {source : String} {tokenSpans : List Span}
    (h : (scan source.toList).map spans = .ok tokenSpans) :
    Tiles source tokenSpans ∧ Independent source tokenSpans := by
  cases hscan : scan source.toList with
  | error fault =>
      rw [hscan] at h
      cases h
  | ok ls =>
      rw [hscan] at h
      obtain rfl : spans ls = tokenSpans := Except.ok.inj h
      have htiles := (scan_spell hscan).tiles
      have hindependent := independent_of_scan hscan
      rw [String.ofList_toList] at htiles hindependent
      exact ⟨htiles, hindependent⟩

/-- Characters of two bytes in a name and between quotes, a quote with a backslash in front, and a number
with all of its parts. -/
theorem spans_tile_the_text_accented :
    Tiles "é2 **'it\\'s é'[ 1_0.5e-3]"
        [⟨.name "é2", 0, 3⟩, ⟨.sign .starStar, 4, 6⟩, ⟨.str "it's é", 6, 16⟩,
          ⟨.sign .openBracket, 16, 17⟩, ⟨numberToken false "1_0.5e-3".toList, 18, 26⟩,
          ⟨.sign .closeBracket, 26, 27⟩] ∧
      Token.scan "é2 ** 'it\\'s é' [ 1_0.5e-3 ]".toList =
        .ok [.name "é2", .sign .starStar, .str "it's é", .sign .openBracket,
          numberToken false "1_0.5e-3".toList, .sign .closeBracket] := by
  obtain ⟨htiles, hindependent⟩ := @spans_tile_the_text "é2 **'it\\'s é'[ 1_0.5e-3]" _ rfl
  exact ⟨htiles, hindependent.joined⟩

/-! ## The text of an index -/

theorem spansFrom_concat (offset : Nat) (ls : List Lexeme) (l : Lexeme) :
    spansFrom offset (ls ++ [l]) = spansFrom offset ls ++
      [⟨l.token, offset + byteLength (ls.flatMap chars ++ l.blank),
        offset + byteLength (ls.flatMap chars ++ l.blank ++ l.text)⟩] := by
  induction ls generalizing offset with
  | nil => simp [spansFrom, byteLength_append, Nat.add_assoc]
  | cons first ls ih =>
      have hassoc (more : List Char) : offset + byteLength first.blank + byteLength first.text +
          byteLength (ls.flatMap chars ++ more) =
            offset + byteLength ((first :: ls).flatMap chars ++ more) := by
        simp only [List.flatMap_cons, byteLength_append, chars]
        omega
      rw [List.cons_append, spansFrom, ih, hassoc, List.append_assoc, hassoc, ← List.append_assoc]
      rfl

/-- The text of an index is what the text of the whole has between the end of the opening bracket and
the start of the closing one. -/
theorem slice_of_indexed {source : String} {ls : List Lexeme} {n : String} {inner : List Char}
    (h : scan source.toList = .ok ls) (hindexed : Evaluate.indexed? ls = some (n, inner)) :
    ∃ name opening more closing, spans ls = name :: opening :: (more ++ [closing]) ∧
      String.Pos.Raw.extract source ⟨opening.stop⟩ ⟨closing.start⟩ = String.ofList inner := by
  obtain ⟨tail, -, hcuts⟩ := exists_cuts h
  have happend := hcuts.eq_append
  unfold Evaluate.indexed? at hindexed
  split at hindexed
  · next first opening rest =>
    split at hindexed
    · next closing htoken hlast =>
      split at hindexed <;> cases hindexed
      obtain ⟨middle, rfl⟩ := List.getLast?_eq_some_iff.mp hlast
      have hsource : source = String.ofList ([first, opening].flatMap chars ++
          (middle.flatMap chars ++ closing.blank ++ (closing.text ++ tail))) := by
        rw [← String.ofList_toList (s := source), happend]
        simp [chars]
      have hopens : 0 + byteLength first.blank + byteLength first.text +
          byteLength opening.blank + byteLength opening.text =
            byteLength ([first, opening].flatMap chars) := by
        simp only [List.flatMap_cons, List.flatMap_nil, List.append_nil, byteLength_append, chars]
        omega
      have hcloses : 0 + byteLength ((first :: opening :: middle).flatMap chars ++ closing.blank) =
          byteLength ([first, opening].flatMap chars) +
            byteLength (middle.flatMap chars ++ closing.blank) := by
        simp only [List.flatMap_cons, List.flatMap_nil, List.append_nil, byteLength_append]
        omega
      refine ⟨_, _, _, _, spansFrom_concat 0 (first :: opening :: middle) closing, ?_⟩
      dsimp only
      rw [hopens, hcloses, hsource, List.dropLast_concat]
      exact Text.extract_middle _ _ _
    · cases hindexed
  · cases hindexed

end Lexeme

end Parlance
