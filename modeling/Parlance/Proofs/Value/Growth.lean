import Parlance.Value.Arithmetic
import Parlance.Value.Detach

/-!
# Computations that only add to the heap

Evaluating makes new lists and records and never changes the old ones. This holds of every
computation on the store, also where it fails halfway, and is closed under everything that such
computations are put together with.
-/

namespace Parlance

namespace Heap

/-- Every container of the old heap has the same contents in the new one. -/
structure Extends (old new : Heap) : Prop where
  lists : ∀ {cell : Nat} {items}, old.lists[cell]? = some items → new.lists[cell]? = some items
  records : ∀ {cell : Nat} {fields},
    old.records[cell]? = some fields → new.records[cell]? = some fields

variable {old new : Heap}

theorem Extends.refl (heap : Heap) : heap.Extends heap :=
  ⟨id, id⟩

theorem Extends.trans {h₁ h₂ h₃ : Heap} (h₁₂ : h₁.Extends h₂) (h₂₃ : h₂.Extends h₃) :
    h₁.Extends h₃ :=
  ⟨fun h => h₂₃.lists (h₁₂.lists h), fun h => h₂₃.records (h₁₂.records h)⟩

theorem Extends.items (h : old.Extends new) {cell : Nat} (hcell : cell < old.lists.size) :
    new.items cell = old.items cell := by
  have hold : old.lists[cell]? = some old.lists[cell] := Array.getElem?_eq_getElem hcell
  simp only [Heap.items, Array.getD_eq_getD_getElem?, h.lists hold, hold]

theorem Extends.fields (h : old.Extends new) {cell : Nat} (hcell : cell < old.records.size) :
    new.fields cell = old.fields cell := by
  have hold : old.records[cell]? = some old.records[cell] := Array.getElem?_eq_getElem hcell
  simp only [Heap.fields, Array.getD_eq_getD_getElem?, h.records hold, hold]

theorem getElem?_push_of_eq_some {xs : Array α} {i : Nat} {a b : α} (h : xs[i]? = some a) :
    (xs.push b)[i]? = some a := by
  obtain ⟨hi, -⟩ := Array.getElem?_eq_some_iff.mp h
  rw [Array.getElem?_push, if_neg (Nat.ne_of_lt hi), h]

theorem extends_newList (heap : Heap) (items : List Value) :
    heap.Extends (heap.newList items).2 :=
  ⟨getElem?_push_of_eq_some, id⟩

theorem extends_newRecord (heap : Heap) (fields : Entries Value) :
    heap.Extends (heap.newRecord fields).2 :=
  ⟨id, getElem?_push_of_eq_some⟩

end Heap

namespace Eval

theorem bind_run (x : Eval α) (f : α → Eval β) (store : Store) :
    (x >>= f) store =
      match x store with
      | (.ok a, store) => f a store
      | (.error e, store) => (.error e, store) := by
  change ExceptT.bindCont f (x store).1 (x store).2 = _
  rcases x store with ⟨_ | _, _⟩ <;> rfl

/-- A computation and what follows it have a result if both have one. -/
theorem bind_eq_ok {x : Eval α} {f : α → Eval β} {store store' : Store} {b : β} :
    (x >>= f) store = (.ok b, store') ↔
      ∃ a middle, x store = (.ok a, middle) ∧ f a middle = (.ok b, store') := by
  rw [bind_run]
  constructor
  · intro h
    split at h
    · next a middle hx => exact ⟨a, middle, hx, h⟩
    · cases h
  · rintro ⟨a, middle, hx, hf⟩
    rw [hx]
    exact hf

theorem lift_eq_ok {r : Except Error α} {store store' : Store} {a : α} :
    (liftM r : Eval α) store = (.ok a, store') ↔ r = .ok a ∧ store = store' := by
  constructor
  · intro h
    cases r <;> cases h
    exact ⟨rfl, rfl⟩
  · rintro ⟨rfl, rfl⟩
    rfl

theorem lift_ok_bind (a : α) (f : α → Eval β) :
    ((liftM (Except.ok a : Except Error α) : Eval α) >>= f) = f a :=
  rfl

theorem tryCatch_run (x : Eval α) (handle : Error → Eval α) (store : Store) :
    (tryCatch x handle : Eval α) store =
      match x store with
      | (.ok a, store) => (.ok a, store)
      | (.error e, store) => handle e store := by
  simp only [tryCatch, tryCatchThe, MonadExceptOf.tryCatch, ExceptT.tryCatch, ExceptT.mk, bind,
    StateT.bind]
  rcases x store with ⟨_ | _, _⟩ <;> rfl

/-- A computation that leaves every container as it is, however it ends. -/
def Grows (x : Eval α) : Prop :=
  ∀ store : Store, store.heap.Extends (x store).2.heap

theorem Grows.pure (a : α) : Grows (pure a : Eval α) :=
  fun store => .refl store.heap

theorem Grows.throw (e : Error) : Grows (throw e : Eval α) :=
  fun store => .refl store.heap

/-- What may fail but does not work on the store. -/
theorem Grows.lift (r : Except Error α) : Grows (liftM r : Eval α) :=
  fun store => .refl store.heap

theorem Grows.heap : Grows heap :=
  fun store => .refl store.heap

theorem Grows.newList (items : List Value) : Grows (newList items) :=
  fun store => store.heap.extends_newList items

theorem Grows.newRecordCell (fields : Entries Value) : Grows (newRecordCell fields) :=
  fun store => store.heap.extends_newRecord fields

theorem Grows.draw (f : Random → α × Random) : Grows (draw f) :=
  fun store => .refl store.heap

theorem Grows.bind {x : Eval α} {f : α → Eval β} (hx : Grows x) (hf : ∀ a, Grows (f a)) :
    Grows (x >>= f) := by
  intro store
  have first := hx store
  rw [bind_run]
  rcases hrun : x store with ⟨_ | a, middle⟩
  all_goals rw [hrun] at first
  · exact first
  · exact first.trans (hf a middle)

theorem Grows.newRecord (fields : Entries Value) : Grows (newRecord fields) :=
  (newRecordCell fields).bind fun _ => .pure _

theorem Grows.tryCatch {x : Eval α} {handle : Error → Eval α} (hx : Grows x)
    (hhandle : ∀ e, Grows (handle e)) : Grows (tryCatch x handle) := by
  intro store
  have first := hx store
  rw [tryCatch_run]
  rcases hrun : x store with ⟨e | a, middle⟩
  all_goals rw [hrun] at first
  · exact first.trans (hhandle e middle)
  · exact first

theorem Grows.ite {c : Prop} [Decidable c] {x y : Eval α} (hx : Grows x) (hy : Grows y) :
    Grows (if c then x else y) := by
  split
  · exact hx
  · exact hy

/-- A failure on a condition, in front of a computation. -/
theorem Grows.failIf {c : Prop} [Decidable c] {e : Error} {x : Eval α} (hx : Grows x) :
    Grows (if c then (do MonadExcept.throw e; x) else x) :=
  .ite (.bind (.throw e) fun _ => hx) hx

theorem Grows.mapM {f : α → Eval β} (hf : ∀ a, Grows (f a)) (xs : List α) : Grows (xs.mapM f) := by
  induction xs with
  | nil => exact .pure []
  | cons x xs ih =>
      rw [List.mapM_cons]
      exact (hf x).bind fun _ => ih.bind fun _ => .pure _

theorem Grows.foldlM {f : β → α → Eval β} (hf : ∀ b a, Grows (f b a)) (xs : List α) (b : β) :
    Grows (xs.foldlM f b) := by
  induction xs generalizing b with
  | nil => exact .pure b
  | cons x xs ih =>
      rw [List.foldlM_cons]
      exact (hf b x).bind ih

end Eval

namespace Value

open Eval

/-! ## Copies -/

theorem grows_detachFuel (heap : Heap) (fuel : Nat) (path : List Ref) (v : Value) :
    Grows (detachFuel heap fuel path v) := by
  induction fuel generalizing path v with
  | zero =>
      cases v with
      | list cell => exact .throw _
      | record cell => exact .throw _
      | _ => exact .pure _
  | succ fuel ih =>
      cases v with
      | list cell =>
          simp only [detachFuel]
          refine .failIf (.ite (.newList _) ?_)
          exact (Grows.mapM (ih _) _).bind fun _ => .newList _
      | record cell =>
          simp only [detachFuel]
          refine Grows.failIf (Grows.bind (.mapM (fun field => ?_) _) fun _ => .newRecord _)
          exact (ih _ field.2).bind fun _ => .pure _
      | _ => exact .pure _

theorem grows_detached (v : Value) : Grows v.detached :=
  Grows.heap.bind fun heap => grows_detachFuel heap _ [] v

/-! ## Operators -/

theorem grows_add (left right : Value) : Grows (left.add right) := by
  unfold add
  split
  · exact .pure _
  · exact Grows.heap.bind fun _ => .newList _
  · exact .lift _

theorem grows_repeatList (cell count : Nat) : Grows (repeatList cell count) :=
  Grows.heap.bind fun _ => .ite (.throw _) (.ite (.newList _) (.newList _))

theorem grows_multiply (left right : Value) : Grows (left.multiply right) := by
  unfold multiply
  split
  · exact .lift _
  · exact .lift _
  · exact grows_repeatList _ _
  · exact grows_repeatList _ _
  · exact .lift _

theorem grows_binary (op : BinaryOp) (left right : Value) : Grows (binary op left right) := by
  cases op with
  | add => exact grows_add left right
  | multiply => exact grows_multiply left right
  | _ => exact .lift _

theorem grows_unary (op : UnaryOp) (v : Value) : Grows (unary op v) := by
  cases op with
  | not => exact Grows.heap.bind fun _ => .pure _
  | _ => exact .lift _

end Value

end Parlance
