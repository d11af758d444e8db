import Mathlib.Data.List.Forall2
import Mathlib.Logic.Relation
import Parlance.Proofs.Value.Growth
import Parlance.Proofs.Value.Walk

/-!
# Copies of values

A copy of a value has the same scalars in the same places and new containers all the way down. It
can be made of every value whose containers are on the heap and never inside themselves.
-/

namespace Parlance

open Relation

/-! ## Values that end -/

/-- The container that a value refers to. -/
def Value.ref? : Value → Option Ref
  | .list cell => some (.list cell)
  | .record cell => some (.record cell)
  | _ => Option.none

theorem Value.ref?_of_isScalar {v : Value} (h : v.isScalar = true) : v.ref? = Option.none := by
  cases v with
  | list cell => cases h
  | record cell => cases h
  | _ => rfl

namespace Heap

/-- The values in a container. -/
def contents (heap : Heap) : Ref → List Value
  | .list cell => heap.items cell
  | .record cell => (heap.fields cell).map Prod.snd

/-- A container has another one among its contents. -/
def Holds (heap : Heap) (outer inner : Ref) : Prop :=
  ∃ v ∈ heap.contents outer, v.ref? = some inner

/-- A container is met on the way down from a value. -/
def Reaches (heap : Heap) (v : Value) (r : Ref) : Prop :=
  ∃ outer, v.ref? = some outer ∧ ReflTransGen heap.Holds outer r

/-- All containers below a value are on the heap, and none is inside itself. -/
structure Ends (heap : Heap) (v : Value) : Prop where
  present {r : Ref} (h : heap.Reaches v r) : r ∈ heap.refs
  acyclic {r : Ref} (h : heap.Reaches v r) : ¬ TransGen heap.Holds r r

variable {heap : Heap}

theorem Reaches.refl {v : Value} {r : Ref} (h : v.ref? = some r) : heap.Reaches v r :=
  ⟨r, h, .refl⟩

theorem Reaches.inside {v : Value} {outer r : Ref} (hv : v ∈ heap.contents outer)
    (h : heap.Reaches v r) {w : Value} (hw : w.ref? = some outer) : heap.Reaches w r := by
  obtain ⟨inner, hinner, path⟩ := h
  exact ⟨outer, hw, .head ⟨v, hv, hinner⟩ path⟩

theorem not_reaches_of_isScalar {v : Value} (h : v.isScalar = true) (r : Ref) :
    ¬ heap.Reaches v r := by
  rintro ⟨outer, houter, -⟩
  rw [Value.ref?_of_isScalar h] at houter
  cases houter

theorem Ends.of_isScalar {v : Value} (h : v.isScalar = true) : heap.Ends v :=
  ⟨fun {r} hr => (not_reaches_of_isScalar h r hr).elim,
    fun {r} hr => (not_reaches_of_isScalar h r hr).elim⟩

/-- A container ends if all that is in it does. -/
theorem Ends.of_contents {v : Value} {r : Ref} (hv : v.ref? = some r) (hr : r ∈ heap.refs)
    (h : ∀ w ∈ heap.contents r, heap.Ends w) : heap.Ends v := by
  refine ⟨?_, ?_⟩
  · rintro r' ⟨outer, houter, path⟩
    obtain rfl : outer = r := Option.some.inj (houter.symm.trans hv)
    rcases path.cases_head with rfl | ⟨inner, ⟨w, hw, hinner⟩, path⟩
    · exact hr
    · exact (h w hw).present ⟨inner, hinner, path⟩
  · rintro r' ⟨outer, houter, path⟩ cycle
    obtain rfl : outer = r := Option.some.inj (houter.symm.trans hv)
    rcases path.cases_head with rfl | ⟨inner, ⟨w, hw, hinner⟩, path⟩
    -- A cycle through the container goes through something in it.
    · obtain ⟨inner, ⟨w, hw, hinner⟩, path⟩ := TransGen.head'_iff.mp cycle
      exact (h w hw).acyclic ⟨inner, hinner, path⟩ cycle
    · exact (h w hw).acyclic ⟨inner, hinner, path⟩ cycle

theorem mem_refs_of_mem_contents {r : Ref} {v : Value} (h : v ∈ heap.contents r) :
    r ∈ heap.refs := by
  cases r with
  | list cell => exact list_mem_refs h
  | record cell =>
      obtain ⟨field, hfield, -⟩ := List.mem_map.mp h
      exact record_mem_refs hfield

theorem list_mem_refs_iff {cell : Nat} : .list cell ∈ heap.refs ↔ cell < heap.lists.size := by
  simp [refs]

theorem record_mem_refs_iff {cell : Nat} : .record cell ∈ heap.refs ↔ cell < heap.records.size := by
  simp [refs]

/-- A container is the same on two heaps. -/
def AgreeAt (old new : Heap) : Ref → Prop
  | .list cell => new.items cell = old.items cell
  | .record cell => new.fields cell = old.fields cell

theorem Extends.agreeAt {old new : Heap} (h : old.Extends new) {r : Ref} (hr : r ∈ old.refs) : old.AgreeAt new r := by
  cases r with
  | list cell => exact h.items (list_mem_refs_iff.mp hr)
  | record cell => exact h.fields (record_mem_refs_iff.mp hr)

theorem Extends.lists_size_le {old new : Heap} (h : old.Extends new) :
    old.lists.size ≤ new.lists.size := by
  by_cases hzero : old.lists.size = 0
  · omega
  · have hlast : old.lists.size - 1 < old.lists.size := by omega
    obtain ⟨hlt, -⟩ := Array.getElem?_eq_some_iff.mp (h.lists (Array.getElem?_eq_getElem hlast))
    omega

theorem Extends.records_size_le {old new : Heap} (h : old.Extends new) :
    old.records.size ≤ new.records.size := by
  by_cases hzero : old.records.size = 0
  · omega
  · have hlast : old.records.size - 1 < old.records.size := by omega
    obtain ⟨hlt, -⟩ := Array.getElem?_eq_some_iff.mp (h.records (Array.getElem?_eq_getElem hlast))
    omega

end Heap

/-! ## Copies -/

/-- A value has a copy: the same scalars, and for each container a new one with the same names in it
and copies of its values. The value is read from the old heap and the copy from the new one. -/
inductive Value.Copied (old new : Heap) : Value → Value → Prop
  | scalar {v : Value} (h : v.isScalar = true) : Copied old new v v
  | list {cell cell' : Nat} {items' : List Value} (fresh : old.lists.size ≤ cell')
      (made : new.lists[cell']? = some items')
      (items : List.Forall₂ (Copied old new) (old.items cell) items') :
      Copied old new (.list cell) (.list cell')
  | record {cell cell' : Nat} {fields' : Entries Value} (fresh : old.records.size ≤ cell')
      (made : new.records[cell']? = some fields')
      (names : fields'.names = (old.fields cell).names)
      (values : List.Forall₂ (Copied old new) ((old.fields cell).map Prod.snd)
        (fields'.map Prod.snd)) :
      Copied old new (.record cell) (.record cell')

/-- A copy stays one as the heap grows. -/
theorem Value.Copied.grow {old new new' : Heap} (ext : new.Extends new') {v v' : Value}
    (h : Copied old new v v') : Copied old new' v v' := by
  refine @Copied.rec old new (fun v v' _ => Copied old new' v v')
    (fun vs vs' _ => List.Forall₂ (Copied old new') vs vs') ?_ ?_ ?_ ?_ ?_ v v' h
  · intro v hv
    exact .scalar hv
  · intro cell cell' items' fresh made _ items
    exact .list fresh (ext.lists made) items
  · intro cell cell' fields' fresh made names _ values
    exact .record fresh (ext.records made) names values
  · exact .nil
  · intro v v' vs vs' _ _ hv hvs
    exact .cons hv hvs

/-! ## Computations that give a result -/

namespace Eval

/-- Wherever the heap holds all of `base`, the computation succeeds, only adds to the heap, and
gives what is promised of the heap that it leaves. -/
def Gives (base : Heap) (x : Eval α) (promised : Heap → α → Prop) : Prop :=
  ∀ store : Store, base.Extends store.heap → ∃ a store', x store = (.ok a, store') ∧
    store.heap.Extends store'.heap ∧ promised store'.heap a

variable {base : Heap}

theorem Gives.pure {promised : Heap → α → Prop} {a : α}
    (h : ∀ heap, base.Extends heap → promised heap a) : Gives base (pure a : Eval α) promised :=
  fun store hstore => ⟨a, store, rfl, .refl _, h store.heap hstore⟩

theorem Gives.bind {x : Eval α} {f : α → Eval β} {P : Heap → α → Prop} {Q : Heap → β → Prop}
    (hx : Gives base x P)
    (hf : ∀ heap a, base.Extends heap → P heap a → Gives heap (f a) Q) :
    Gives base (x >>= f) Q := by
  intro store hstore
  obtain ⟨a, middle, hrun, hgrow, ha⟩ := hx store hstore
  obtain ⟨b, last, hrun', hgrow', hb⟩ := hf middle.heap a (hstore.trans hgrow) ha middle (.refl _)
  refine ⟨b, last, ?_, hgrow.trans hgrow', hb⟩
  rw [bind_run, hrun]
  exact hrun'

theorem Gives.newList (items : List Value) :
    Gives base (newList items) fun now v =>
      ∃ cell, v = .list cell ∧ base.lists.size ≤ cell ∧ now.lists[cell]? = some items := by
  intro store hstore
  refine ⟨_, _, rfl, store.heap.extends_newList items, store.heap.lists.size, rfl,
    hstore.lists_size_le, ?_⟩
  exact Array.getElem?_push_size

theorem Gives.newRecord (fields : Entries Value) :
    Gives base (newRecord fields) fun now v =>
      ∃ cell, v = .record cell ∧ base.records.size ≤ cell ∧ now.records[cell]? = some fields := by
  intro store hstore
  refine ⟨_, _, rfl, store.heap.extends_newRecord fields, store.heap.records.size, rfl,
    hstore.records_size_le, ?_⟩
  exact Array.getElem?_push_size

theorem Gives.mono {base' : Heap} {x : Eval α} {P Q : Heap → α → Prop} (h : Gives base x P)
    (hbase : base.Extends base') (hPQ : ∀ heap a, base'.Extends heap → P heap a → Q heap a) :
    Gives base' x Q := by
  intro store hstore
  obtain ⟨a, store', hrun, hgrow, ha⟩ := h store (hbase.trans hstore)
  exact ⟨a, store', hrun, hgrow, hPQ _ a (hstore.trans hgrow) ha⟩

/-- A computation for each element, if what is promised of one survives the others. -/
theorem Gives.mapM {f : α → Eval β} {P : Heap → α → β → Prop} {xs : List α}
    (hf : ∀ x ∈ xs, Gives base (f x) fun heap => P heap x)
    (grow : ∀ {heap heap' : Heap} {a : α} {b : β}, heap.Extends heap' → P heap a b → P heap' a b) :
    Gives base (xs.mapM f) fun heap ys => List.Forall₂ (P heap) xs ys := by
  induction xs generalizing base with
  | nil => exact .pure fun heap _ => .nil
  | cons x xs ih =>
      rw [List.mapM_cons]
      refine (hf x List.mem_cons_self).bind fun heap y hbase hy => ?_
      have hxs : ∀ z ∈ xs, Gives heap (f z) fun heap => P heap z := fun z hz =>
        (hf z (List.mem_cons_of_mem x hz)).mono hbase fun _ _ _ h => h
      refine (ih hxs).bind fun heap' ys hheap hys => ?_
      exact .pure fun heap'' hheap' =>
        .cons (grow (hheap.trans hheap') hy) (hys.imp fun _ _ h => grow hheap' h)

end Eval

namespace Value

open Eval

variable {old now : Heap}

theorem Copied.items {vs : List Value} (h : vs.all isScalar = true) :
    List.Forall₂ (Copied old now) vs vs := by
  induction vs with
  | nil => exact .nil
  | cons v vs ih =>
      simp only [List.all_cons, Bool.and_eq_true] at h
      exact .cons (.scalar h.1) (ih h.2)

theorem newList_copies {base : Heap} (ext : old.Extends base) {cell : Nat} {items : List Value}
    (h : List.Forall₂ (Copied old base) (old.items cell) items) :
    Gives base (newList items) fun now v => Copied old now (.list cell) v := by
  intro store hstore
  obtain ⟨v, store', hrun, hgrow, cell', rfl, hfresh, hmade⟩ := Gives.newList items store hstore
  refine ⟨_, store', hrun, hgrow, .list ?_ hmade ?_⟩
  · exact Nat.le_trans ext.lists_size_le hfresh
  · exact h.imp fun _ _ hv => hv.grow (hstore.trans hgrow)

theorem names_eq {fields fields' : Entries Value}
    (h : List.Forall₂ (fun field field' => field'.1 = field.1) fields fields') :
    fields'.names = fields.names := by
  induction h with
  | nil => rfl
  | cons hname _ ih => exact congrArg₂ List.cons hname ih

theorem newRecord_copies {base : Heap} (ext : old.Extends base) {cell : Nat}
    {fields : Entries Value}
    (h : List.Forall₂ (fun field field' => field'.1 = field.1 ∧ Copied old base field.2 field'.2)
      (old.fields cell) fields) :
    Gives base (newRecord fields) fun now v => Copied old now (.record cell) v := by
  intro store hstore
  obtain ⟨v, store', hrun, hgrow, cell', rfl, hfresh, hmade⟩ := Gives.newRecord fields store hstore
  have hnames := names_eq (h.imp fun _ _ hfield => hfield.1)
  refine ⟨_, store', hrun, hgrow, .record ?_ hmade hnames ?_⟩
  · exact Nat.le_trans ext.records_size_le hfresh
  · rw [List.forall₂_map_left_iff, List.forall₂_map_right_iff]
    exact h.imp fun _ _ hfield => hfield.2.grow (hstore.trans hgrow)

/-- A walk that copies what a heap holds of an older one never meets a container again. -/
theorem detachFuel_copies (ext : old.Extends now) {fuel : Nat} {path : List Ref} {v : Value}
    (walk : Walk now.refs path fuel)
    (hpath : ∀ outer ∈ path, ∀ r, v.ref? = some r → TransGen old.Holds outer r)
    (acyclic : ∀ r, old.Reaches v r → ¬ TransGen old.Holds r r)
    (same : ∀ r, old.Reaches v r → old.AgreeAt now r) :
    Gives now (detachFuel now fuel path v) fun heap copy => Copied old heap v copy := by
  induction fuel generalizing path v with
  | zero => exact walk.not_zero.elim
  | succ fuel ih =>
      have hnew (r : Ref) (hr : v.ref? = some r) : r ∉ path := fun hmem =>
        acyclic r (.refl hr) (hpath r hmem r hr)
      -- One step down, the container that was entered is on the path too.
      have hinside (r : Ref) (hr : v.ref? = some r) (w : Value) (hw : w ∈ old.contents r) :
          ∀ outer ∈ r :: path, ∀ r', w.ref? = some r' → TransGen old.Holds outer r' := by
        intro outer houter r' hr'
        have hholds : old.Holds r r' := ⟨w, hw, hr'⟩
        rcases List.mem_cons.mp houter with rfl | houter
        · exact .single hholds
        · exact (hpath outer houter r hr).tail hholds
      have below {w : Value} {r r' : Ref} (hr : v.ref? = some r) (hw : w ∈ old.contents r)
          (h : old.Reaches w r') : old.Reaches v r' := h.inside hw hr
      cases v with
      | list cell =>
          have hitems : now.items cell = old.items cell := same (.list cell) (.refl rfl)
          have hmem : ¬ path.contains (.list cell) = true := by
            simpa using hnew (.list cell) rfl
          simp only [detachFuel]
          rw [if_neg hmem]
          split
          · next hscalar =>
            rw [hitems] at hscalar ⊢
            exact newList_copies ext (Copied.items hscalar)
          · have each : ∀ w ∈ now.items cell, Gives now (detachFuel now fuel (.list cell :: path) w)
                fun heap copy => Copied old heap w copy := by
              intro w hw
              have hcell := Heap.list_mem_refs hw
              rw [hitems] at hw
              exact ih (walk.enter hcell (hnew _ rfl)) (hinside _ rfl w hw)
                (fun r hr => acyclic r (below rfl hw hr)) fun r hr => same r (below rfl hw hr)
            refine (Gives.mapM each fun hgrow h => h.grow hgrow).bind ?_
            intro heap copies hheap hcopies
            rw [hitems] at hcopies
            exact newList_copies (ext.trans hheap) hcopies
      | record cell =>
          have hfields : now.fields cell = old.fields cell := same (.record cell) (.refl rfl)
          have hmem : ¬ path.contains (.record cell) = true := by
            simpa using hnew (.record cell) rfl
          simp only [detachFuel]
          rw [if_neg hmem]
          have each : ∀ field ∈ now.fields cell,
              Gives now (do
                let copy ← detachFuel now fuel (.record cell :: path) field.2
                return (field.1, copy))
              fun heap field' => field'.1 = field.1 ∧ Copied old heap field.2 field'.2 := by
            intro field hfield
            have hcell := Heap.record_mem_refs hfield
            rw [hfields] at hfield
            have hw : field.2 ∈ old.contents (.record cell) := List.mem_map_of_mem hfield
            have inner := ih (walk.enter hcell (hnew _ rfl)) (hinside _ rfl _ hw)
              (fun r hr => acyclic r (below rfl hw hr)) fun r hr => same r (below rfl hw hr)
            refine inner.bind fun heap copy _ hcopy => ?_
            exact .pure fun heap' hheap' => ⟨rfl, hcopy.grow hheap'⟩
          refine (Gives.mapM each fun hgrow h => ⟨h.1, h.2.grow hgrow⟩).bind ?_
          intro heap copies hheap hcopies
          rw [hfields] at hcopies
          exact newRecord_copies (ext.trans hheap) hcopies
      | _ => exact .pure fun heap _ => .scalar rfl

/-- A value that ends on an older heap is copied from any that holds all of it. -/
theorem detached_copies {v : Value} (ends : old.Ends v) :
    Gives old v.detached fun heap copy => Copied old heap v copy := by
  intro store hstore
  have hroom : store.heap.refs.length < store.heap.cellCount + 1 := by
    rw [Heap.length_refs]
    omega
  exact detachFuel_copies hstore (.start hroom) (by simp) (fun _ hr => ends.acyclic hr)
    (fun _ hr => hstore.agreeAt (ends.present hr)) store (.refl _)

end Value

end Parlance
