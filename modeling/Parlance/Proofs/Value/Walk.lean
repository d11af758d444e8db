import Mathlib.Data.List.ProdSigma
import Parlance.Value.Detach
import Parlance.Value.Order

/-!
# Walks through values

Showing, comparing, ordering and copying values walk from container to container. A walk keeps the
containers, or the pairs of containers, that it is inside of and never enters one of them again. On
a heap with finitely many containers it therefore ends, even where a container reaches itself, and
the fuel of a walk is never used up.
-/

namespace Parlance

/-- A walk among finitely many things with fuel left: `path` are those that it is inside of, none of
them twice, and the fuel exceeds the number of the others. -/
structure Walk (all path : List α) (fuel : Nat) : Prop where
  nodup : path.Nodup
  subset : path ⊆ all
  room : all.length < fuel + path.length

namespace Walk

variable {all path : List α} {a : α} {fuel : Nat}

theorem start (h : all.length < fuel) : Walk all [] fuel :=
  ⟨List.nodup_nil, List.nil_subset all, h⟩

/-- There is fuel for a step. -/
theorem succ (h : Walk all path fuel) : ∃ n, fuel = n + 1 := by
  have hle := h.nodup.length_le_of_subset h.subset
  have hroom := h.room
  exact ⟨fuel - 1, by omega⟩

theorem not_zero (h : Walk all path 0) : False := by
  obtain ⟨n, hn⟩ := h.succ
  cases hn

/-- Entering something new takes one unit of fuel. -/
theorem enter (h : Walk all path (fuel + 1)) (ha : a ∈ all) (hnew : a ∉ path) :
    Walk all (a :: path) fuel := by
  refine ⟨List.nodup_cons.mpr ⟨hnew, h.nodup⟩, List.cons_subset.mpr ⟨ha, h.subset⟩, ?_⟩
  have hroom := h.room
  rw [List.length_cons]
  omega

end Walk

namespace Heap

/-- All containers of a heap. -/
def refs (heap : Heap) : List Ref :=
  (List.range heap.lists.size).map .list ++ (List.range heap.records.size).map .record

theorem length_refs (heap : Heap) : heap.refs.length = heap.cellCount := by
  simp [refs, cellCount]

theorem lt_size_of_mem_items {heap : Heap} {cell : Nat} {v : Value} (h : v ∈ heap.items cell) :
    cell < heap.lists.size := by
  by_cases hcell : cell < heap.lists.size
  · exact hcell
  · simp [items, Array.getD, hcell] at h

theorem lt_size_of_mem_fields {heap : Heap} {cell : Nat} {field : String × Value}
    (h : field ∈ heap.fields cell) : cell < heap.records.size := by
  by_cases hcell : cell < heap.records.size
  · exact hcell
  · simp [fields, Array.getD, hcell] at h

theorem list_mem_refs {heap : Heap} {cell : Nat} {v : Value} (h : v ∈ heap.items cell) :
    .list cell ∈ heap.refs := by
  have := lt_size_of_mem_items h
  simpa [refs] using this

theorem record_mem_refs {heap : Heap} {cell : Nat} {field : String × Value}
    (h : field ∈ heap.fields cell) : .record cell ∈ heap.refs := by
  have := lt_size_of_mem_fields h
  simpa [refs] using this

end Heap

namespace Value

variable {heap : Heap}

/-! ## Showing -/

theorem showFuel_eq {fuel fuel' : Nat} {path : List Ref} (walk : Walk heap.refs path fuel)
    (walk' : Walk heap.refs path fuel') (quote : Bool) (v : Value) :
    showFuel heap fuel path quote v = showFuel heap fuel' path quote v := by
  induction fuel generalizing fuel' path quote v with
  | zero => exact walk.not_zero.elim
  | succ fuel ih =>
      obtain ⟨fuel', rfl⟩ := walk'.succ
      cases v with
      | list cell =>
          simp only [showFuel]
          by_cases hmem : path.contains (.list cell) = true
          · rw [if_pos hmem, if_pos hmem]
          · rw [if_neg hmem, if_neg hmem]
            have hnew : .list cell ∉ path := by simpa using hmem
            have hitems : (heap.items cell).map (showFuel heap fuel (.list cell :: path) true) =
                (heap.items cell).map (showFuel heap fuel' (.list cell :: path) true) := by
              refine List.map_congr_left fun item hitem => ?_
              have hcell := Heap.list_mem_refs hitem
              exact ih (walk.enter hcell hnew) (walk'.enter hcell hnew) true item
            rw [hitems]
      | record cell =>
          simp only [showFuel]
          by_cases hmem : path.contains (.record cell) = true
          · rw [if_pos hmem, if_pos hmem]
          · rw [if_neg hmem, if_neg hmem]
            have hnew : .record cell ∉ path := by simpa using hmem
            have hfields : ∀ field ∈ heap.fields cell,
                showFuel heap fuel (.record cell :: path) true field.2 =
                  showFuel heap fuel' (.record cell :: path) true field.2 := by
              intro field hfield
              have hcell := Heap.record_mem_refs hfield
              exact ih (walk.enter hcell hnew) (walk'.enter hcell hnew) true field.2
            rw [List.map_congr_left fun field hfield => by rw [hfields field hfield]]
      | _ => simp only [showFuel]

/-! ## Copying -/

theorem mapM_congr {f g : α → Eval β} {xs : List α} (h : ∀ x ∈ xs, f x = g x) :
    xs.mapM f = xs.mapM g := by
  induction xs with
  | nil => rfl
  | cons x xs ih =>
      rw [List.mapM_cons, List.mapM_cons, h x List.mem_cons_self,
        ih fun y hy => h y (List.mem_cons_of_mem x hy)]

theorem detachFuel_eq {fuel fuel' : Nat} {path : List Ref} (walk : Walk heap.refs path fuel)
    (walk' : Walk heap.refs path fuel') (v : Value) :
    detachFuel heap fuel path v = detachFuel heap fuel' path v := by
  induction fuel generalizing fuel' path v with
  | zero => exact walk.not_zero.elim
  | succ fuel ih =>
      obtain ⟨fuel', rfl⟩ := walk'.succ
      cases v with
      | list cell =>
          simp only [detachFuel]
          by_cases hmem : path.contains (.list cell) = true
          · rw [if_pos hmem, if_pos hmem]
            rfl
          · rw [if_neg hmem, if_neg hmem]
            have hnew : .list cell ∉ path := by simpa using hmem
            have hitems : (heap.items cell).mapM (detachFuel heap fuel (.list cell :: path)) =
                (heap.items cell).mapM (detachFuel heap fuel' (.list cell :: path)) := by
              refine mapM_congr fun item hitem => ?_
              have hcell := Heap.list_mem_refs hitem
              exact ih (walk.enter hcell hnew) (walk'.enter hcell hnew) item
            rw [hitems]
      | record cell =>
          simp only [detachFuel]
          by_cases hmem : path.contains (.record cell) = true
          · rw [if_pos hmem, if_pos hmem]
            rfl
          · rw [if_neg hmem, if_neg hmem]
            have hnew : .record cell ∉ path := by simpa using hmem
            have hfields : ∀ field ∈ heap.fields cell,
                detachFuel heap fuel (.record cell :: path) field.2 =
                  detachFuel heap fuel' (.record cell :: path) field.2 := by
              intro field hfield
              have hcell := Heap.record_mem_refs hfield
              exact ih (walk.enter hcell hnew) (walk'.enter hcell hnew) field.2
            rw [mapM_congr fun field hfield => by rw [hfields field hfield]]
      | _ => simp only [detachFuel]

/-! ## Comparing -/

theorem all_congr_of_mem {f g : α → Bool} {xs : List α} (h : ∀ x ∈ xs, f x = g x) :
    xs.all f = xs.all g := by
  rw [Bool.eq_iff_iff, List.all_eq_true, List.all_eq_true]
  exact forall₂_congr fun x hx => by rw [h x hx]

theorem equalFuel_eq {fuel fuel' : Nat} {seen : List (Ref × Ref)}
    (walk : Walk (heap.refs ×ˢ heap.refs) seen fuel)
    (walk' : Walk (heap.refs ×ˢ heap.refs) seen fuel') (left right : Value) :
    equalFuel heap fuel seen left right = equalFuel heap fuel' seen left right := by
  induction fuel generalizing fuel' seen left right with
  | zero => exact walk.not_zero.elim
  | succ fuel ih =>
      obtain ⟨fuel', rfl⟩ := walk'.succ
      cases left with
      | list l =>
          cases right with
          | list r =>
              simp only [equalFuel]
              by_cases hmem : seen.contains (.list l, .list r) = true
              · rw [hmem, Bool.or_true, Bool.true_or, Bool.true_or]
              · have hnew : (.list l, .list r) ∉ seen := by simpa using hmem
                refine congrArg _ (congrArg _ (all_congr_of_mem fun pair hpair => ?_))
                obtain ⟨hl, hr⟩ := List.of_mem_zip hpair
                have hcells := List.mem_product.mpr ⟨Heap.list_mem_refs hl, Heap.list_mem_refs hr⟩
                exact ih (walk.enter hcells hnew) (walk'.enter hcells hnew) pair.1 pair.2
          | _ => simp only [equalFuel]
      | record l =>
          cases right with
          | record r =>
              simp only [equalFuel]
              by_cases hmem : seen.contains (.record l, .record r) = true
              · rw [hmem, Bool.or_true, Bool.true_or, Bool.true_or]
              · have hnew : (.record l, .record r) ∉ seen := by simpa using hmem
                refine congrArg _ (congrArg _ (all_congr_of_mem fun field hfield => ?_))
                cases hother : (heap.fields r).get? field.1 with
                | none => rfl
                | some other =>
                    have hmem' := Heap.record_mem_refs (Entries.mem_of_get? hother)
                    have hcells := List.mem_product.mpr ⟨Heap.record_mem_refs hfield, hmem'⟩
                    exact ih (walk.enter hcells hnew) (walk'.enter hcells hnew) field.2 other
          | _ => simp only [equalFuel]
      | _ => simp only [equalFuel]

/-! ## Ordering -/

theorem orderFuel_eq {fuel fuel' : Nat} {seen : List (Nat × Nat)}
    (walk : Walk (List.range heap.lists.size ×ˢ List.range heap.lists.size) seen fuel)
    (walk' : Walk (List.range heap.lists.size ×ˢ List.range heap.lists.size) seen fuel')
    (symbol : String) (left right : Value) :
    orderFuel heap symbol fuel seen left right = orderFuel heap symbol fuel' seen left right := by
  induction fuel generalizing fuel' seen left right with
  | zero => exact walk.not_zero.elim
  | succ fuel ih =>
      obtain ⟨fuel', rfl⟩ := walk'.succ
      cases left with
      | list l =>
          cases right with
          | list r =>
              simp only [orderFuel]
              by_cases hmem : seen.contains (l, r) = true
              · rw [if_pos hmem, if_pos hmem]
              · rw [if_neg hmem, if_neg hmem]
                have hnew : (l, r) ∉ seen := by simpa using hmem
                cases hpair : ((heap.items l).zip (heap.items r)).find? fun pair =>
                    !equal heap pair.1 pair.2 with
                | none => rfl
                | some pair =>
                    obtain ⟨hl, hr⟩ := List.of_mem_zip (List.mem_of_find?_eq_some hpair)
                    have hcells := List.mem_product.mpr
                      ⟨List.mem_range.mpr (Heap.lt_size_of_mem_items hl),
                        List.mem_range.mpr (Heap.lt_size_of_mem_items hr)⟩
                    exact ih (walk.enter hcells hnew) (walk'.enter hcells hnew) pair.1 pair.2
          | _ => simp only [orderFuel]
      | str l => cases right <;> simp only [orderFuel]
      | _ => simp only [orderFuel]

end Value

end Parlance
