/-!
# Named entries in the order of their making

The properties of a record and the story objects of a run are kept in the order in which their
names first appeared; giving a known name a new value leaves it in its place.
-/

namespace Parlance

/-- Named values in the order in which the names first appeared. -/
abbrev Entries (α : Type) := List (String × α)

namespace Entries

/-- The value under a name. -/
def get? (entries : Entries α) (name : String) : Option α :=
  entries.lookup name

/-- Gives a name a value: in its place if the name is known, at the end otherwise. -/
def put (name : String) (value : α) : Entries α → Entries α
  | [] => [(name, value)]
  | (other, old) :: rest =>
    if name = other then (name, value) :: rest else (other, old) :: put name value rest

/-- The names in their order. -/
def names (entries : Entries α) : List String :=
  entries.map Prod.fst

/-- The value under a name is one of the entries. -/
theorem mem_of_get? {entries : Entries α} {name : String} {v : α}
    (h : entries.get? name = some v) : (name, v) ∈ entries := by
  obtain ⟨front, back, rfl, -⟩ := List.lookup_eq_some_iff.mp h
  exact List.mem_append_right front List.mem_cons_self

/-- A known name keeps its place. -/
theorem names_put_of_get? {entries : Entries α} {name : String} {old : α} (value : α)
    (h : entries.get? name = some old) : (put name value entries).names = entries.names := by
  induction entries with
  | nil => simp [get?] at h
  | cons head rest ih =>
    obtain ⟨other, v⟩ := head
    by_cases hn : name = other
    · simp [put, names, hn]
    · have hr : get? rest name = some old := by
        have hb : (name == other) = false := by simpa using hn
        simpa [get?, List.lookup_cons, hb] using h
      simpa [put, names, hn] using ih hr

end Entries

end Parlance
