/-!
# Maps from names

A finite map remembers its entries in the order in which they were set. Its entries are walked in
one canonical order: longer names first, equally long ones in the order of their characters. So a
walk never meets a name before a longer one that it begins, and does not tell how the map was built.
-/

namespace Parlance

/-- Whether `a` stands before `b` in the canonical order of names: it is longer in UTF-8, or as
long and smaller. -/
def precedes (a b : String) : Bool :=
  decide (b.utf8ByteSize < a.utf8ByteSize) ||
    (decide (a.utf8ByteSize = b.utf8ByteSize) && decide (a < b))

theorem precedes_iff {a b : String} :
    precedes a b = true ↔
      b.utf8ByteSize < a.utf8ByteSize ∨ (a.utf8ByteSize = b.utf8ByteSize ∧ a < b) := by
  simp [precedes]

/-- No name stands before itself. -/
theorem precedes_irrefl (a : String) : precedes a a = false := by
  rw [← Bool.not_eq_true, precedes_iff]
  rintro (h | ⟨_, h⟩)
  · omega
  · exact String.lt_irrefl a h

theorem precedes_trans {a b c : String} (hab : precedes a b = true) (hbc : precedes b c = true) :
    precedes a c = true := by
  rw [precedes_iff] at *
  rcases hab with hab | ⟨hab, lab⟩ <;> rcases hbc with hbc | ⟨hbc, lbc⟩
  · exact .inl (by omega)
  · exact .inl (by omega)
  · exact .inl (by omega)
  · exact .inr ⟨by omega, String.lt_trans lab lbc⟩

/-- Two different names are comparable. -/
theorem precedes_of_not {a b : String} (hne : a ≠ b) (h : precedes a b = false) :
    precedes b a = true := by
  rw [← Bool.not_eq_true, precedes_iff] at h
  rw [precedes_iff]
  simp only [not_or, not_and] at h
  by_cases hsize : a.utf8ByteSize = b.utf8ByteSize
  · refine .inr ⟨hsize.symm, ?_⟩
    have hba : b ≤ a := String.not_lt.mp (h.2 hsize)
    rcases String.not_le.mp (fun hab => hne (String.le_antisymm hab hba)) with hlt
    exact hlt
  · exact .inl (by omega)

namespace NameMap

/-- Puts an entry at its canonical place, instead of an entry of the same name. -/
def insertEntry (name : String) (value : α) : List (String × α) → List (String × α)
  | [] => [(name, value)]
  | (other, old) :: rest =>
    if name = other then (name, value) :: rest
    else if precedes name other then (name, value) :: (other, old) :: rest
    else (other, old) :: insertEntry name value rest

theorem mem_insertEntry {name : String} {value : α} {entries : List (String × α)}
    {e : String × α} (h : e ∈ insertEntry name value entries) :
    e = (name, value) ∨ e ∈ entries := by
  induction entries with
  | nil => simpa [insertEntry] using h
  | cons head rest ih =>
    obtain ⟨other, old⟩ := head
    simp only [insertEntry] at h
    split at h
    · simp only [List.mem_cons] at h ⊢
      rcases h with h | h
      · exact .inl h
      · exact .inr (.inr h)
    · split at h
      · simpa only [List.mem_cons] using h
      · simp only [List.mem_cons] at h ⊢
        rcases h with h | h
        · exact .inr (.inl h)
        · rcases ih h with h | h
          · exact .inl h
          · exact .inr (.inr h)

theorem pairwise_insertEntry (name : String) (value : α) {entries : List (String × α)}
    (h : entries.Pairwise fun x y => precedes x.1 y.1 = true) :
    (insertEntry name value entries).Pairwise fun x y => precedes x.1 y.1 = true := by
  induction entries with
  | nil => simp [insertEntry]
  | cons head rest ih =>
    obtain ⟨other, old⟩ := head
    rw [List.pairwise_cons] at h
    simp only [insertEntry]
    split
    · next heq =>
      subst heq
      exact List.pairwise_cons.mpr h
    · next hne =>
      split
      · next hlt =>
        refine List.pairwise_cons.mpr ⟨?_, List.pairwise_cons.mpr h⟩
        intro e he
        rcases List.mem_cons.mp he with rfl | he
        · exact hlt
        · exact precedes_trans hlt (h.1 e he)
      · next hlt =>
        refine List.pairwise_cons.mpr ⟨?_, ih h.2⟩
        intro e he
        rcases mem_insertEntry he with rfl | he
        · exact precedes_of_not hne (by simpa using hlt)
        · exact h.1 e he

end NameMap

/-- A finite map from names. What was set last stands first. -/
structure NameMap (α : Type) where
  held : List (String × α)
  distinct : (held.map Prod.fst).Nodup

namespace NameMap

/-- The map without entries. -/
def empty : NameMap α :=
  ⟨[], List.nodup_nil⟩

instance : Inhabited (NameMap α) :=
  ⟨empty⟩

instance : EmptyCollection (NameMap α) :=
  ⟨empty⟩

/-- What a name is mapped to. -/
def get? (map : NameMap α) (name : String) : Option α :=
  map.held.lookup name

/-- Whether a name is mapped to anything. -/
def contains (map : NameMap α) (name : String) : Bool :=
  (map.get? name).isSome

/-- Entries without those of a name. -/
def without (name : String) (entries : List (String × α)) : List (String × α) :=
  entries.filter fun e => e.1 != name

theorem not_mem_names_without (name : String) (entries : List (String × α)) :
    name ∉ (without name entries).map Prod.fst := by
  simp [without]

theorem nodup_without (name : String) {entries : List (String × α)}
    (h : (entries.map Prod.fst).Nodup) : ((without name entries).map Prod.fst).Nodup :=
  h.sublist (List.filter_sublist.map Prod.fst)

/-- The map with one name mapped to a new value. -/
def set (map : NameMap α) (name : String) (value : α) : NameMap α :=
  ⟨(name, value) :: without name map.held,
    List.nodup_cons.mpr ⟨not_mem_names_without name map.held, nodup_without name map.distinct⟩⟩

/-- The map without a name. -/
def erase (map : NameMap α) (name : String) : NameMap α :=
  ⟨without name map.held, nodup_without name map.distinct⟩

/-- The entries in canonical order. -/
def entries (map : NameMap α) : List (String × α) :=
  map.held.foldr (fun e sorted => insertEntry e.1 e.2 sorted) []

/-- The names, longest first. -/
def names (map : NameMap α) : List String :=
  map.entries.map Prod.fst

/-- How many names are mapped. -/
def size (map : NameMap α) : Nat :=
  map.held.length

/-- Whether no name is mapped. -/
def isEmpty (map : NameMap α) : Bool :=
  map.held.isEmpty

/-- The entries in the order of their names' characters. -/
def sorted (map : NameMap α) : List (String × α) :=
  map.entries.mergeSort fun x y => !decide (y.1 < x.1)

/-- The map that a list of settings builds, the later ones winning. -/
def ofList (entries : List (String × α)) : NameMap α :=
  entries.foldl (fun map e => map.set e.1 e.2) empty

theorem lookup_cons_ite (other key : String) (value : α) (rest : List (String × α)) :
    List.lookup other ((key, value) :: rest) =
      if other = key then some value else List.lookup other rest := by
  by_cases h : other = key
  · simp [h]
  · have hb : (other == key) = false := by simpa using h
    simp [List.lookup_cons, hb, h]

theorem lookup_insertEntry (name other : String) (value : α) (entries : List (String × α)) :
    (insertEntry name value entries).lookup other =
      if other = name then some value else entries.lookup other := by
  induction entries with
  | nil => simp [insertEntry, lookup_cons_ite]
  | cons head rest ih =>
    obtain ⟨key, old⟩ := head
    simp only [insertEntry]
    split
    · next heq =>
      subst heq
      by_cases h : other = name <;> simp [lookup_cons_ite, h]
    · next hne =>
      split
      · simp [lookup_cons_ite]
      · by_cases h : other = name
        · subst h
          simp [lookup_cons_ite, hne, ih]
        · simp [lookup_cons_ite, h, ih]

theorem lookup_without (name other : String) (entries : List (String × α)) :
    (without name entries).lookup other = if other = name then none else entries.lookup other := by
  induction entries with
  | nil => simp [without]
  | cons head rest ih =>
    obtain ⟨key, value⟩ := head
    unfold without at ih ⊢
    by_cases hk : key = name
    · rw [List.filter_cons_of_neg (by simp [hk]), ih, lookup_cons_ite]
      by_cases h : other = name <;> simp [h, hk]
    · rw [List.filter_cons_of_pos (by simpa using hk), lookup_cons_ite, lookup_cons_ite, ih]
      by_cases h : other = name
      · simp [h, Ne.symm hk]
      · simp [h]

/-- Setting a name changes what that name is mapped to, and nothing else. -/
theorem get?_set (map : NameMap α) (name other : String) (value : α) :
    (map.set name value).get? other = if other = name then some value else map.get? other := by
  simp only [get?, set, lookup_cons_ite, lookup_without]
  split <;> rfl

/-- Erasing a name unmaps it, and no other. -/
theorem get?_erase (map : NameMap α) (name other : String) :
    (map.erase name).get? other = if other = name then none else map.get? other :=
  lookup_without name other map.held

/-- Entries stand in canonical order. -/
theorem ordered (map : NameMap α) :
    map.entries.Pairwise fun x y => precedes x.1 y.1 = true := by
  unfold entries
  induction map.held with
  | nil => exact List.Pairwise.nil
  | cons e rest ih => exact pairwise_insertEntry e.1 e.2 ih

/-- The entries are what the names are mapped to. -/
theorem lookup_entries (map : NameMap α) (name : String) :
    map.entries.lookup name = map.get? name := by
  unfold entries get?
  induction map.held with
  | nil => rfl
  | cons e rest ih => rw [List.foldr_cons, lookup_insertEntry, ih, lookup_cons_ite]

theorem lookup_of_mem {entries : List (String × α)}
    (h : entries.Pairwise fun x y => precedes x.1 y.1 = true) {entry : String × α}
    (hmem : entry ∈ entries) : entries.lookup entry.1 = some entry.2 := by
  induction entries with
  | nil => cases hmem
  | cons other rest ih =>
    obtain ⟨hfirst, hrest⟩ := List.pairwise_cons.mp h
    rw [lookup_cons_ite]
    rcases List.mem_cons.mp hmem with rfl | hmem
    · exact if_pos rfl
    · have hne : entry.1 ≠ other.1 := by
        intro heq
        have hlt := hfirst entry hmem
        rw [heq, precedes_irrefl] at hlt
        cases hlt
      rw [if_neg hne]
      exact ih hrest hmem

/-- A map has one entry for each of its names. -/
theorem mem_entries_iff (map : NameMap α) (entry : String × α) :
    entry ∈ map.entries ↔ map.get? entry.1 = some entry.2 := by
  rw [← lookup_entries]
  refine ⟨lookup_of_mem map.ordered, fun h => ?_⟩
  obtain ⟨front, back, hentries, -⟩ := List.lookup_eq_some_iff.mp h
  rw [hentries]
  exact List.mem_append_right front List.mem_cons_self

end NameMap

end Parlance
