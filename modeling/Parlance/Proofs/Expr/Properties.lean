import Parlance.Proofs.Expr.Indexing
import Parlance.Proofs.Expr.Sharing

/-!
# Reading properties

A text that consists of the name of a record, blanks and the name of one of its properties gives the
value that the record holds under it, if its evaluation comes to look it up as a property. Before
that, a text is cut into tokens, and it is read as it stands if it is in brackets, and as an element
if it is a name with an index. Records are tried longest name first, so one with a longer name comes
between if the rest of the text is a property of it.
-/

namespace Parlance

/-- A name that stands before another one is no proper beginning of it. -/
theorem not_append_of_precedes {longer name : String} {more : List Char}
    (h : precedes longer name = true) : name.toList ≠ longer.toList ++ more := by
  intro hname
  have hsplit : name = longer ++ String.ofList more := by
    rw [← String.toList_inj, hname, String.toList_append, String.toList_ofList]
  have hsize := congrArg String.utf8ByteSize hsplit
  rw [String.utf8ByteSize_append] at hsize
  rcases precedes_iff.mp h with hless | ⟨hsame, hless⟩
  · omega
  · have hempty : String.ofList more = "" := String.utf8ByteSize_eq_zero_iff.mp (by omega)
    rw [hsplit, hempty, String.append_empty] at hless
    exact String.lt_irrefl _ hless

namespace Phrase

/-- Records are listed in the order of their names. -/
theorem records_ordered (heap : Heap) (scope : Bindings) :
    (records heap scope).Pairwise fun x y => precedes x.1 y.1 = true := by
  refine scope.ordered.filterMap _ fun x y hxy record hx record' hy => ?_
  rcases x with ⟨name, value⟩
  rcases y with ⟨name', value'⟩
  cases value <;> cases hx
  cases value' <;> cases hy
  exact hxy

/-- A record in scope stands in the list of records behind those with longer names. -/
theorem records_split {scope : Bindings} {name : String} {cell : Nat} (heap : Heap)
    (h : scope.get? name = some (.record cell)) :
    ∃ front back, records heap scope = front ++ (name, heap.fields cell) :: back ∧
      ∀ entry ∈ front, precedes entry.1 name = true := by
  have hmem : (name, heap.fields cell) ∈ records heap scope :=
    List.mem_filterMap.mpr ⟨(name, .record cell), (scope.mem_entries_iff _).mpr h, rfl⟩
  obtain ⟨front, back, hrecords⟩ := List.append_of_mem hmem
  have ordered := records_ordered heap scope
  rw [hrecords, List.pairwise_append] at ordered
  exact ⟨front, back, hrecords, fun entry hentry => ordered.2.2 entry hentry _ List.mem_cons_self⟩

/-- The properties that are known of a record in scope are those on the heap. -/
theorem get?_records {scope : Bindings} {name : String} {cell : Nat} (heap : Heap)
    (h : scope.get? name = some (.record cell)) :
    Entries.get? (records heap scope) name = some (heap.fields cell) := by
  obtain ⟨front, back, hrecords, hfront⟩ := records_split heap h
  refine List.lookup_eq_some_iff.mpr ⟨front, back, hrecords, fun entry hentry => ?_⟩
  rw [bne_iff_ne]
  rintro rfl
  have hself := hfront entry hentry
  rw [precedes_irrefl] at hself
  cases hself

/-- A text is a name, blanks, and a property. -/
def Spells (text name property : List Char) : Prop :=
  ∃ blanks, text = name ++ (blanks ++ property) ∧ blanks ≠ [] ∧
    (∀ c ∈ blanks, Text.isBlank c = true) ∧ ∀ c ∈ property.head?, Text.isBlank c = false

theorem trimStart_of_blanks {blanks property : List Char}
    (hblanks : ∀ c ∈ blanks, Text.isBlank c = true)
    (hproperty : ∀ c ∈ property.head?, Text.isBlank c = false) :
    Text.trimStart (blanks ++ property) = property := by
  rw [Text.trimStart, List.dropWhile_append_of_pos hblanks]
  cases property with
  | nil => rfl
  | cons c rest => rw [List.dropWhile_cons_of_neg (by simp [hproperty c rfl])]

/-- What is tried as a property behind a name is spelled by the text. -/
theorem spells_of_after {text name rest : List Char} {c : Char}
    (hafter : Text.after? name text = some (c :: rest)) (hblank : Text.isBlank c = true) :
    Spells text name (Text.trimStart (c :: rest)) := by
  refine ⟨(c :: rest).takeWhile Text.isBlank, ?_, ?_, ?_, fun d hd => ?_⟩
  · rw [Text.trimStart, List.takeWhile_append_dropWhile]
    exact (List.isPrefixOf?_eq_some_iff_append_eq.mp hafter).symm
  · rw [List.takeWhile_cons_of_pos hblank]
    exact List.cons_ne_nil _ _
  · exact List.all_eq_true.mp List.all_takeWhile
  · have hhead := List.head?_dropWhile_not Text.isBlank (c :: rest)
    rw [Text.trimStart] at hd
    rw [hd] at hhead
    exact hhead

/-- Of two names that a text begins with, the one that stands first is longer. -/
theorem length_lt_of_precedes {text property rest : List Char} {name longer : String}
    (spells : Spells text name.toList property) (hafter : longer.toList ++ rest = text)
    (h : precedes longer name = true) : name.length < longer.length := by
  obtain ⟨blanks, rfl, -⟩ := spells
  rcases List.append_eq_append_iff.mp hafter with ⟨more, hname, -⟩ | ⟨more, hlonger, -⟩
  · exact absurd hname (not_append_of_precedes h)
  · cases more with
    | nil =>
        rw [List.append_nil, String.toList_inj] at hlonger
        rw [hlonger, precedes_irrefl] at h
        cases h
    | cons c more =>
        rw [← String.length_toList, ← String.length_toList, hlonger, List.length_append,
          List.length_cons]
        omega

/-- No record with a longer name has the rest of a text as a property. -/
def Unshadowed (scope : Bindings) (heap : Heap) (text : List Char) (name : String) : Prop :=
  ∀ longer rest : String, name.length < longer.length → Spells text longer.toList rest.toList →
    ∀ cell, scope.get? longer = some (.record cell) → (heap.fields cell).get? rest = none

theorem property?_of_bound {scope : Bindings} {name property : String} {cell : Nat} {heap : Heap}
    {text : List Char} {v : Value} (spells : Spells text name.toList property.toList)
    (unshadowed : Unshadowed scope heap text name)
    (hbound : scope.get? name = some (.record cell))
    (hstored : (heap.fields cell).get? property = some v) :
    property? (records heap scope) text = some v := by
  obtain ⟨front, back, hrecords, hfront⟩ := records_split heap hbound
  unfold property?
  rw [hrecords, List.findSome?_append, List.findSome?_eq_none_iff.mpr, Option.none_or,
    List.findSome?_cons]
  · obtain ⟨blanks, rfl, hne, hblanks, hproperty⟩ := spells
    obtain ⟨c, more, rfl⟩ := List.exists_cons_of_ne_nil hne
    have hafter : Text.after? name.toList (name.toList ++ (c :: more ++ property.toList)) =
        some (c :: more ++ property.toList) := List.isPrefixOf?_eq_some_iff_append_eq.mpr rfl
    dsimp only
    rw [hafter, List.cons_append]
    dsimp only
    rw [if_pos (hblanks c List.mem_cons_self), ← List.cons_append,
      trimStart_of_blanks hblanks hproperty, String.ofList_toList, hstored]
  · intro entry hentry
    obtain ⟨other, hother, hfields⟩ := Evaluate.mem_records (hrecords ▸ List.mem_append_left _ hentry)
    dsimp only
    split
    · rfl
    · rfl
    · next c rest hafter =>
      split
      · next hblank =>
        have hlonger := length_lt_of_precedes spells
          (List.isPrefixOf?_eq_some_iff_append_eq.mp hafter) (hfront entry hentry)
        have hrest := spells_of_after hafter hblank
        rw [← String.toList_ofList (l := Text.trimStart (c :: rest))] at hrest
        rw [hfields]
        exact unshadowed entry.1 _ hlonger hrest other hother
      · rfl

end Phrase

/-- A text without blanks at its ends that is a single name has no blank in it. -/
theorem Lexeme.visible_of_single {text : List Char} (trimmed : Text.trim text = text)
    {ls : List Lexeme} {n : String} (hscan : scan text = .ok ls)
    (htokens : ls.map Lexeme.token = [.name n]) : ∀ c ∈ text, Text.isBlank c = false := by
  obtain ⟨l, rfl, htoken⟩ := List.map_eq_singleton_iff.mp htokens
  have letters := ((scan_writtenAs hscan _ (List.mem_singleton_self _)).of_name htoken).2
  have visible : ∀ c ∈ l.text, Text.isBlank c = false := fun c hc =>
    visible_of_continuesWord (letters c hc)
  cases scan_spell hscan with
  | cons blank _ more =>
      cases more with
      | nil hrest =>
          rw [Text.trim_blanks_append blank, Text.trim_append_blanks _ hrest,
            Text.trim_of_visible visible] at trimmed
          rwa [← trimmed]

namespace Evaluate

open Brackets

/-- The store on which the text of an expression is looked up: a bracketed text is tried as it stands
first. -/
def tried (text : List Char) (store : Store) : Store :=
  (asWritten? text store).2

theorem extends_tried (text : List Char) (store : Store) :
    store.heap.Extends (tried text store).heap :=
  (makes_asWritten text store (.refl _) (.refl _)).1

/-- Evaluating the text of a name, blanks and a property comes to look up the property, and finds no
other. The text has no blanks at its ends; it can be cut into tokens; these are not a name with an
index; in brackets, it has no value as it stands; and no record with a longer name has the rest of it
as a property. -/
structure LooksUp (scope : Bindings) (store : Store) (text : List Char) (name property : String) :
    Prop where
  spells : Phrase.Spells text name.toList property.toList
  trimmed : Text.trim text = text
  tokens : ∃ ts, Token.scan text = .ok ts ∧ ∀ n inner,
    ts = .name n :: .sign .openBracket :: (inner ++ [.sign .closeBracket]) → ¬ SquareNested inner
  unwritten (opens : text.head? = some '[') (closes : text.getLast? = some ']') (v : Value) :
    (unresolved text store).1 ≠ .ok v
  unshadowed : Phrase.Unshadowed scope (tried text store).heap text name

namespace LooksUp

variable {scope : Bindings} {store : Store} {text : List Char} {name property : String}

theorem asWritten? (h : LooksUp scope store text name property) :
    Evaluate.asWritten? text store = (.ok none, tried text store) := by
  refine Prod.ext ?_ rfl
  unfold Evaluate.asWritten?
  split
  · next hbracketed =>
    rw [looksBracketed, Bool.and_eq_true, beq_iff_eq, Text.endsWithChar, beq_iff_eq] at hbracketed
    have hfails := h.unwritten hbracketed.1 hbracketed.2
    rcases hrun : unresolved text store with ⟨_ | v, after⟩
    · rw [success?, Eval.tryCatch_run, Eval.bind_run, hrun]
      rfl
    · exact absurd (by rw [hrun]) (hfails v)
  · rfl

theorem not_singleName (h : LooksUp scope store text name property) {ls : List Lexeme}
    (hscan : Lexeme.scan text = .ok ls) : singleName? scope ls = none := by
  by_contra hsome
  obtain ⟨n, hn⟩ := Option.ne_none_iff_exists'.mp hsome
  have visible := Lexeme.visible_of_single h.trimmed hscan (form_of_singleName hn)
  obtain ⟨blanks, htext, hne, hblanks, -⟩ := h.spells
  obtain ⟨c, more, rfl⟩ := List.exists_cons_of_ne_nil hne
  have hvisible := visible c (by simp [htext])
  rw [hblanks c List.mem_cons_self] at hvisible
  cases hvisible

theorem not_indexed (h : LooksUp scope store text name property) {ls : List Lexeme}
    (hscan : Lexeme.scan text = .ok ls) : indexed? ls = none := by
  by_contra hsome
  obtain ⟨⟨n, inner⟩, hn⟩ := Option.ne_none_iff_exists'.mp hsome
  obtain ⟨rest, hform, hcloses⟩ := form_of_indexed hn
  obtain ⟨ts, rfl, nested⟩ := squareNested_of_closesAtEnd hcloses
  obtain ⟨tokens, htokens, hfree⟩ := h.tokens
  obtain rfl : ls.map Lexeme.token = tokens :=
    Except.ok.inj ((tokens_of_scan hscan).symm.trans htokens)
  exact hfree n ts hform nested

end LooksUp

/-- Where a record is bound to a name, the name with that of a property reads what the record
holds. -/
theorem text_of_property {scope : Bindings} {source name property : String} {cell : Nat}
    {store : Store} {v : Value} (h : LooksUp scope store source.toList name property)
    (hbound : scope.get? name = some (.record cell))
    (hstored : (store.heap.fields cell).get? property = some v) :
    text scope source store = (.ok v, tried source.toList store) := by
  obtain ⟨ts, hscan, -⟩ := h.tokens
  obtain ⟨ls, hls, -⟩ := lexemes_of_tokens hscan
  have hscan := scan_of_lexemes hls
  have hcell : (tried source.toList store).heap.fields cell = store.heap.fields cell :=
    (extends_tried source.toList store).agreeAt
      (Heap.record_mem_refs (Entries.mem_of_get? hstored))
  have hproperty : Phrase.property? (Phrase.records (tried source.toList store).heap scope)
      source.toList = some v :=
    Phrase.property?_of_bound h.spells h.unshadowed hbound (by rw [hcell, hstored])
  have hheap : Eval.heap (tried source.toList store) =
      (.ok (tried source.toList store).heap, tried source.toList store) := rfl
  rw [text_eq_textWith, textWith, h.trimmed, Eval.bind_run, h.asWritten?]
  dsimp only
  rw [hls]
  change lexedWith scope _ _ ls (tried source.toList store) = _
  simp only [lexedWith, h.not_singleName hscan, h.not_indexed hscan, Eval.bind_run, hheap, hproperty]
  rfl

end Evaluate

end Parlance
