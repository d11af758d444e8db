import Mathlib.Data.List.Nodup
import Parlance.Value.Basic

/-!
# Records without two properties of one name

Putting a value under a name never doubles the name, so a heap on which no record has two properties
of one name stays one whatever becomes of it: new lists, new records whose names are distinct, other
elements, and other values under the names of a record.
-/

namespace Parlance

namespace Entries

variable {entries : Entries α} {name : String}

theorem mem_names_put {other : String} {value : α} :
    other ∈ (put name value entries).names ↔ other = name ∨ other ∈ entries.names := by
  induction entries with
  | nil => simp [put, names]
  | cons head rest ih =>
      obtain ⟨key, old⟩ := head
      unfold names at ih ⊢
      simp only [put]
      split
      · next heq => simp [heq]
      · rw [List.map_cons, List.mem_cons, ih, List.map_cons, List.mem_cons]
        exact or_left_comm

/-- A name is put in its place, or behind names that do not have it among them. -/
theorem nodup_names_put (h : entries.names.Nodup) (name : String) (value : α) :
    (put name value entries).names.Nodup := by
  induction entries with
  | nil => exact List.nodup_singleton name
  | cons head rest ih =>
      obtain ⟨key, old⟩ := head
      obtain ⟨hkey, hrest⟩ := List.nodup_cons.mp h
      simp only [put]
      split
      · next heq =>
        subst heq
        exact h
      · next hne =>
        refine List.nodup_cons.mpr ⟨fun hmem => ?_, ih hrest⟩
        rcases mem_names_put.mp hmem with heq | hold
        · exact hne heq.symm
        · exact hkey hold

end Entries

namespace Heap

/-- No record of a heap has two properties of one name. -/
def Distinct (heap : Heap) : Prop :=
  ∀ fields ∈ heap.records.toList, fields.names.Nodup

instance (heap : Heap) : Decidable heap.Distinct :=
  inferInstanceAs (Decidable (∀ fields ∈ heap.records.toList, fields.names.Nodup))

variable {heap : Heap}

theorem Distinct.names (h : heap.Distinct) (cell : Nat) : (heap.fields cell).names.Nodup := by
  by_cases hcell : cell < heap.records.size
  · have hfields : heap.fields cell = heap.records[cell] := by simp [fields, Array.getD, hcell]
    rw [hfields]
    exact h _ (Array.getElem_mem_toList hcell)
  · have hfields : heap.fields cell = [] := by simp [fields, Array.getD, hcell]
    rw [hfields]
    exact List.nodup_nil

theorem distinct_of_fields (h : ∀ cell, (heap.fields cell).names.Nodup) : heap.Distinct := by
  intro fields hfields
  obtain ⟨cell, hcell, rfl⟩ := List.getElem_of_mem hfields
  have hsame := h cell
  rwa [Heap.fields, Array.getD, dif_pos (by simpa using hcell)] at hsame

/-- A record more, with distinct names of its own. -/
theorem Distinct.newRecord (h : heap.Distinct) {fields : Entries Value}
    (hfields : fields.names.Nodup) : (heap.newRecord fields).2.Distinct := by
  intro other hother
  rw [Heap.newRecord, Array.toList_push, List.mem_append, List.mem_singleton] at hother
  rcases hother with hold | rfl
  · exact h other hold
  · exact hfields

/-- A value put under a name of a record. -/
theorem Distinct.put (h : heap.Distinct) (cell : Nat) (name : String) (value : Value) :
    (heap.modifyFields cell (Entries.put name value)).Distinct := by
  refine distinct_of_fields fun other => ?_
  have hfields : (heap.modifyFields cell (Entries.put name value)).fields other =
      if cell = other ∧ other < heap.records.size then (heap.fields other).put name value
      else heap.fields other := by
    by_cases hother : other < heap.records.size
    · by_cases heq : cell = other
      · simp [Heap.fields, modifyFields, Array.getD, Array.getElem_modify, hother, heq]
      · simp [Heap.fields, modifyFields, Array.getD, Array.getElem_modify, hother, heq]
    · simp [Heap.fields, modifyFields, Array.getD, hother]
  rw [hfields]
  split
  · exact Entries.nodup_names_put (h.names other) name value
  · exact h.names other

end Heap

end Parlance
