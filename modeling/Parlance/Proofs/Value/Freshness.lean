import Parlance.Proofs.Value.Copy
import Parlance.Proofs.Value.DistinctNames

/-!
# New containers

A heap is sealed over an older one if the containers that are new on it hold only new ones. Everything
that is reached from a new container is new then, and nothing that was reached before is touched when
new containers change. Making containers out of scalars and of what is in new containers keeps a heap
sealed, and so do copies and the operators.
-/

namespace Parlance

open Relation

namespace Heap

variable {old new base heap : Heap}

theorem Extends.refs_subset (h : old.Extends new) {r : Ref} (hr : r ∈ old.refs) : r ∈ new.refs := by
  cases r with
  | list cell =>
      have hle := h.lists_size_le
      rw [list_mem_refs_iff] at hr ⊢
      omega
  | record cell =>
      have hle := h.records_size_le
      rw [record_mem_refs_iff] at hr ⊢
      omega

theorem AgreeAt.contents {r : Ref} (h : old.AgreeAt new r) : new.contents r = old.contents r := by
  cases r with
  | list cell => exact h
  | record cell => exact congrArg (List.map Prod.snd) h

theorem AgreeAt.trans {last : Heap} {r : Ref} (h : old.AgreeAt new r) (h' : new.AgreeAt last r) :
    old.AgreeAt last r := by
  cases r with
  | list cell => exact Eq.trans h' h
  | record cell => exact Eq.trans h' h

/-- Where everything below a value is the same on two heaps, both reach the same from it. -/
theorem reaches_iff {w : Value} (h : ∀ r, old.Reaches w r → old.AgreeAt new r) (r : Ref) :
    new.Reaches w r ↔ old.Reaches w r := by
  have hholds {outer inner : Ref} (houter : old.Reaches w outer) :
      new.Holds outer inner ↔ old.Holds outer inner := by
    rw [Holds, Holds, (h outer houter).contents]
  constructor
  · rintro ⟨outer, houter, path⟩
    refine ⟨outer, houter, ?_⟩
    induction path with
    | refl => exact .refl
    | tail _ step ih => exact ih.tail ((hholds ⟨outer, houter, ih⟩).mp step)
  · rintro ⟨outer, houter, path⟩
    refine ⟨outer, houter, ?_⟩
    induction path with
    | refl => exact .refl
    | tail path step ih => exact ih.tail ((hholds ⟨outer, houter, path⟩).mpr step)

/-- What can become of a heap: containers are added, and those that are `touched` change in place. -/
inductive Becomes (touched : Ref → Prop) (heap : Heap) : Heap → Prop
  | refl : Becomes touched heap heap
  | grow {last later : Heap} (first : Becomes touched heap last) (ext : last.Extends later) :
      Becomes touched heap later
  | items {last : Heap} (first : Becomes touched heap last) {cell : Nat}
      (htouched : touched (.list cell)) (change : List Value → List Value) :
      Becomes touched heap (last.modifyItems cell change)
  | fields {last : Heap} (first : Becomes touched heap last) {cell : Nat}
      (htouched : touched (.record cell)) (change : Entries Value → Entries Value) :
      Becomes touched heap (last.modifyFields cell change)

@[simp] theorem refs_modifyItems (heap : Heap) (cell : Nat) (change : List Value → List Value) :
    (heap.modifyItems cell change).refs = heap.refs := by
  simp [refs, modifyItems]

@[simp] theorem refs_modifyFields (heap : Heap) (cell : Nat)
    (change : Entries Value → Entries Value) : (heap.modifyFields cell change).refs = heap.refs := by
  simp [refs, modifyFields]

theorem agreeAt_modifyItems (heap : Heap) {cell : Nat} (change : List Value → List Value) {r : Ref}
    (h : r ≠ .list cell) : heap.AgreeAt (heap.modifyItems cell change) r := by
  cases r with
  | list other =>
      have hne : cell ≠ other := fun heq => h (by rw [heq])
      simp [AgreeAt, Heap.items, modifyItems, Array.getElem?_modify, hne]
  | record other => rfl

theorem agreeAt_modifyFields (heap : Heap) {cell : Nat} (change : Entries Value → Entries Value)
    {r : Ref} (h : r ≠ .record cell) : heap.AgreeAt (heap.modifyFields cell change) r := by
  cases r with
  | list other => rfl
  | record other =>
      have hne : cell ≠ other := fun heq => h (by rw [heq])
      simp [AgreeAt, Heap.fields, modifyFields, Array.getElem?_modify, hne]

theorem fields_modifyFields {heap : Heap} {cell : Nat} (h : cell < heap.records.size)
    (change : Entries Value → Entries Value) :
    (heap.modifyFields cell change).fields cell = change (heap.fields cell) := by
  simp [Heap.fields, modifyFields, h, Array.getElem_modify]

/-- A container that is not touched stays on the heap as it is. -/
theorem Becomes.agreeAt {touched : Ref → Prop} {later : Heap} (h : heap.Becomes touched later)
    {r : Ref} (hr : r ∈ heap.refs) (huntouched : ¬ touched r) :
    heap.AgreeAt later r ∧ r ∈ later.refs := by
  induction h with
  | refl => exact ⟨(Extends.refl heap).agreeAt hr, hr⟩
  | grow _ ext ih => exact ⟨ih.1.trans (ext.agreeAt ih.2), ext.refs_subset ih.2⟩
  | @items last _ cell htouched change ih =>
      have hne : r ≠ .list cell := fun heq => huntouched (heq ▸ htouched)
      exact ⟨ih.1.trans (last.agreeAt_modifyItems change hne), by simpa using ih.2⟩
  | @fields last _ cell htouched change ih =>
      have hne : r ≠ .record cell := fun heq => huntouched (heq ▸ htouched)
      exact ⟨ih.1.trans (last.agreeAt_modifyFields change hne), by simpa using ih.2⟩

end Heap

/-- A value refers, if to anything, to a container that is on a heap and was not on an older one. -/
def Value.New (base heap : Heap) (v : Value) : Prop :=
  ∀ r, v.ref? = some r → r ∈ heap.refs ∧ r ∉ base.refs

theorem Value.New.of_isScalar {base heap : Heap} {v : Value} (h : v.isScalar = true) :
    v.New base heap := by
  intro r hr
  cases v with
  | list cell => cases h
  | record cell => cases h
  | _ => cases hr

theorem Value.New.grow {base heap heap' : Heap} {v : Value} (h : v.New base heap)
    (ext : heap.Extends heap') : v.New base heap' :=
  fun r hr => ⟨ext.refs_subset (h r hr).1, (h r hr).2⟩

namespace Heap

/-- A heap that has grown out of an older one, whose new containers hold new ones only, and whose
new records double no property name unless an old one does. -/
structure Sealed (base heap : Heap) : Prop where
  grown : base.Extends heap
  inside : ∀ {r : Ref}, r ∈ heap.refs → r ∉ base.refs → ∀ v ∈ heap.contents r, v.New base heap
  distinct : base.Distinct → heap.Distinct

namespace Sealed

variable {base heap : Heap}

theorem refl (heap : Heap) : heap.Sealed heap :=
  ⟨.refl heap, fun hr hnew => absurd hr hnew, id⟩

theorem items (h : base.Sealed heap) {cell : Nat} (hcell : (Value.list cell).New base heap) :
    ∀ v ∈ heap.items cell, v.New base heap :=
  h.inside (hcell _ rfl).1 (hcell _ rfl).2

/-- One more container, with nothing in it but scalars and new containers. -/
theorem push (h : base.Sealed heap) {heap' : Heap} {made : Ref} (ext : heap.Extends heap')
    (hrefs : ∀ r, r ∈ heap'.refs ↔ r ∈ heap.refs ∨ r = made) (hmade : made ∉ heap.refs)
    (hcontents : ∀ v ∈ heap'.contents made, v.New base heap)
    (hdistinct : base.Distinct → heap'.Distinct) :
    base.Sealed heap' ∧ made ∈ heap'.refs ∧ made ∉ base.refs := by
  refine ⟨⟨h.grown.trans ext, ?_, hdistinct⟩, (hrefs made).mpr (.inr rfl), ?_⟩
  · intro r hr hnew v hv
    rcases (hrefs r).mp hr with hold | rfl
    · rw [(ext.agreeAt hold).contents] at hv
      exact (h.inside hold hnew v hv).grow ext
    · exact (hcontents v hv).grow ext
  · intro hbase
    exact hmade (h.grown.refs_subset hbase)

theorem newList (h : base.Sealed heap) {items : List Value} (hitems : ∀ v ∈ items, v.New base heap) :
    base.Sealed (heap.newList items).2 ∧
      (Value.list (heap.newList items).1).New base (heap.newList items).2 := by
  have hcontents : (heap.newList items).2.contents (.list heap.lists.size) = items := by
    simp [contents, Heap.items, Heap.newList]
  obtain ⟨hsealed, hmade⟩ := @push base heap h (heap.newList items).2 (.list heap.lists.size)
    (heap.extends_newList items)
    (by
      intro r
      cases r with
      | list cell =>
          simp only [list_mem_refs_iff, Heap.newList, Array.size_push, Ref.list.injEq]
          omega
      | record cell => simp [record_mem_refs_iff, Heap.newList])
    (by simp [list_mem_refs_iff]) (by rwa [hcontents]) h.distinct
  refine ⟨hsealed, fun r hr => ?_⟩
  cases hr
  exact hmade

theorem newRecord (h : base.Sealed heap) {fields : Entries Value}
    (hfields : ∀ field ∈ fields, field.2.New base heap)
    (hnames : base.Distinct → fields.names.Nodup) :
    base.Sealed (heap.newRecord fields).2 ∧
      (Value.record (heap.newRecord fields).1).New base (heap.newRecord fields).2 := by
  have hcontents :
      (heap.newRecord fields).2.contents (.record heap.records.size) = fields.map Prod.snd := by
    simp [contents, Heap.fields, Heap.newRecord]
  obtain ⟨hsealed, hmade⟩ := @push base heap h (heap.newRecord fields).2 (.record heap.records.size)
    (heap.extends_newRecord fields)
    (by
      intro r
      cases r with
      | record cell =>
          simp only [record_mem_refs_iff, Heap.newRecord, Array.size_push, Ref.record.injEq]
          omega
      | list cell => simp [list_mem_refs_iff, Heap.newRecord])
    (by simp [record_mem_refs_iff])
    (by
      rw [hcontents]
      intro v hv
      obtain ⟨field, hfield, rfl⟩ := List.mem_map.mp hv
      exact hfields field hfield)
    fun hbase => (h.distinct hbase).newRecord (hnames hbase)
  refine ⟨hsealed, fun r hr => ?_⟩
  cases hr
  exact hmade

/-- Whatever is reached from a new value is new. -/
theorem new_of_reaches (h : base.Sealed heap) {v : Value} (hv : v.New base heap) {r : Ref}
    (hr : heap.Reaches v r) : r ∈ heap.refs ∧ r ∉ base.refs := by
  obtain ⟨outer, houter, path⟩ := hr
  induction path with
  | refl => exact hv outer houter
  | tail _ step ih =>
      obtain ⟨w, hw, hinner⟩ := step
      exact h.inside ih.1 ih.2 w hw _ hinner

/-- Changes to what a new value reaches leave all old containers as they are. -/
theorem agreeAt_later (h : base.Sealed heap) {v : Value} (hv : v.New base heap) {later : Heap}
    (hlater : heap.Becomes (heap.Reaches v) later) {r : Ref} (hr : r ∈ base.refs) :
    base.AgreeAt later r := by
  have hapart : ¬ heap.Reaches v r := fun hreach => (h.new_of_reaches hv hreach).2 hr
  exact (h.grown.agreeAt hr).trans (hlater.agreeAt (h.grown.refs_subset hr) hapart).1

end Sealed

end Heap

/-! ## Computations that make new values -/

namespace Eval

/-- Wherever a heap holds all of `now` and is sealed over `base`, the computation only adds to it and
leaves it sealed, however it ends, and of a result there is what is promised. -/
def Makes (base now : Heap) (x : Eval α) (promised : Heap → α → Prop) : Prop :=
  ∀ store : Store, now.Extends store.heap → base.Sealed store.heap →
    store.heap.Extends (x store).2.heap ∧ base.Sealed (x store).2.heap ∧
      ∀ a, (x store).1 = .ok a → promised (x store).2.heap a

/-- A computation of a new value. -/
abbrev MakesNew (base now : Heap) (x : Eval Value) : Prop :=
  Makes base now x fun heap v => v.New base heap

namespace Makes

variable {base now : Heap} {P Q : Heap → α → Prop}

theorem pure {a : α} (h : ∀ heap, now.Extends heap → base.Sealed heap → P heap a) :
    Makes base now (pure a) P := by
  intro store hnow hsealed
  refine ⟨.refl _, hsealed, fun b hb => ?_⟩
  cases hb
  exact h store.heap hnow hsealed

theorem throw (e : Error) : Makes base now (throw e : Eval α) P :=
  fun _ _ hsealed => ⟨.refl _, hsealed, fun _ ha => by cases ha⟩

/-- What may fail but does not work on the store. -/
theorem lift {r : Except Error α}
    (h : ∀ a heap, now.Extends heap → base.Sealed heap → r = .ok a → P heap a) :
    Makes base now (liftM r : Eval α) P := by
  intro store hnow hsealed
  refine ⟨.refl _, hsealed, fun a ha => ?_⟩
  exact h a store.heap hnow hsealed ha

theorem heap : Makes base now heap fun heap h => h = heap ∧ base.Sealed heap := by
  intro store hnow hsealed
  refine ⟨.refl _, hsealed, fun h hh => ?_⟩
  cases hh
  exact ⟨rfl, hsealed⟩

theorem draw {f : Random → α × Random} (h : ∀ a heap, P heap a) : Makes base now (draw f) P :=
  fun _ _ hsealed => ⟨.refl _, hsealed, fun a _ => h a _⟩

theorem newList {items : List Value} (h : ∀ v ∈ items, v.New base now) :
    MakesNew base now (newList items) := by
  intro store hnow hsealed
  obtain ⟨hmade, hnew⟩ := hsealed.newList fun v hv => (h v hv).grow hnow
  refine ⟨store.heap.extends_newList items, hmade, fun v hv => ?_⟩
  cases hv
  exact hnew

theorem newRecord {fields : Entries Value} (h : ∀ field ∈ fields, field.2.New base now)
    (hnames : base.Distinct → fields.names.Nodup) : MakesNew base now (newRecord fields) := by
  intro store hnow hsealed
  obtain ⟨hmade, hnew⟩ :=
    hsealed.newRecord (fun field hfield => (h field hfield).grow hnow) hnames
  refine ⟨store.heap.extends_newRecord fields, hmade, fun v hv => ?_⟩
  cases hv
  exact hnew

theorem bind {x : Eval α} {f : α → Eval β} {R : Heap → β → Prop} (hx : Makes base now x P)
    (hf : ∀ heap a, now.Extends heap → P heap a → Makes base heap (f a) R) :
    Makes base now (x >>= f) R := by
  intro store hnow hsealed
  obtain ⟨hgrow, hsealed', ha⟩ := hx store hnow hsealed
  rw [bind_run]
  rcases hrun : x store with ⟨_ | a, middle⟩
  all_goals rw [hrun] at hgrow hsealed' ha
  · exact ⟨hgrow, hsealed', fun _ hb => by cases hb⟩
  · obtain ⟨hgrow', hlast⟩ :=
      hf middle.heap a (hnow.trans hgrow) (ha a rfl) middle (.refl _) hsealed'
    exact ⟨hgrow.trans hgrow', hlast⟩

theorem tryCatch {x : Eval α} {handle : Error → Eval α} (hx : Makes base now x P)
    (hhandle : ∀ e heap, now.Extends heap → Makes base heap (handle e) P) :
    Makes base now (tryCatch x handle) P := by
  intro store hnow hsealed
  obtain ⟨hgrow, hsealed', ha⟩ := hx store hnow hsealed
  rw [tryCatch_run]
  rcases hrun : x store with ⟨e | a, middle⟩
  all_goals rw [hrun] at hgrow hsealed' ha
  · obtain ⟨hgrow', hlast⟩ :=
      hhandle e middle.heap (hnow.trans hgrow) middle (.refl _) hsealed'
    exact ⟨hgrow.trans hgrow', hlast⟩
  · exact ⟨hgrow, hsealed', ha⟩

theorem mono {now' : Heap} {x : Eval α} (hx : Makes base now x P) (hnow : now.Extends now')
    (hPQ : ∀ heap a, now'.Extends heap → P heap a → Q heap a) : Makes base now' x Q := by
  intro store hstore hsealed
  obtain ⟨hgrow, hsealed', ha⟩ := hx store (hnow.trans hstore) hsealed
  exact ⟨hgrow, hsealed', fun a h => hPQ _ a (hstore.trans hgrow) (ha a h)⟩

theorem ite {c : Prop} [Decidable c] {x y : Eval α} (hx : Makes base now x P)
    (hy : Makes base now y P) : Makes base now (if c then x else y) P := by
  split
  · exact hx
  · exact hy

theorem failIf {c : Prop} [Decidable c] {e : Error} {x : Eval α} (hx : Makes base now x P) :
    Makes base now (if c then (do MonadExcept.throw e; x) else x) P :=
  .ite (.bind (P := fun _ (_ : PUnit) => False) (.throw e) fun _ _ _ h => h.elim) hx

theorem mapM {f : α → Eval β} {R : Heap → α → β → Prop} {xs : List α}
    (hf : ∀ x ∈ xs, Makes base now (f x) fun heap y => R heap x y)
    (grow : ∀ {heap heap' : Heap} {x : α} {y : β}, heap.Extends heap' → R heap x y → R heap' x y) :
    Makes base now (xs.mapM f) fun heap ys => List.Forall₂ (R heap) xs ys := by
  induction xs generalizing now with
  | nil => exact .pure fun _ _ _ => .nil
  | cons x xs ih =>
      rw [List.mapM_cons]
      refine (hf x List.mem_cons_self).bind fun heap y hnow hy => ?_
      have hxs : ∀ z ∈ xs, Makes base heap (f z) fun heap w => R heap z w := fun z hz =>
        (hf z (List.mem_cons_of_mem x hz)).mono hnow fun _ _ _ h => h
      refine (ih hxs).bind fun heap' ys hheap hys => .pure fun heap'' hheap' _ => ?_
      exact .cons (grow (hheap.trans hheap') hy) (hys.imp fun _ _ => grow hheap')

theorem foldlM {f : β → α → Eval β} {R : Heap → β → Prop} {xs : List α} {b : β} (hb : R now b)
    (hf : ∀ x ∈ xs, ∀ heap b, now.Extends heap → R heap b → Makes base heap (f b x) R)
    (grow : ∀ {heap heap' : Heap} {b : β}, heap.Extends heap' → R heap b → R heap' b) :
    Makes base now (xs.foldlM f b) R := by
  induction xs generalizing now b with
  | nil => exact .pure fun heap hnow _ => grow hnow hb
  | cons x xs ih =>
      rw [List.foldlM_cons]
      refine (hf x List.mem_cons_self now b (.refl now) hb).bind fun heap b' hnow hb' => ?_
      refine ih hb' fun y hy heap' b'' hheap => ?_
      exact hf y (List.mem_cons_of_mem x hy) heap' b'' (hnow.trans hheap)

end Makes

end Eval

namespace Value

open Eval

variable {base now : Heap}

theorem makes_scalar {v : Value} (h : v.isScalar = true) : MakesNew base now (pure v) :=
  .pure fun _ _ _ => .of_isScalar h

/-! ## Copies -/

theorem forall_mem_of_forall₂ {P : β → Prop} {xs : List α} {ys : List β}
    (h : List.Forall₂ (fun _ y => P y) xs ys) : ∀ y ∈ ys, P y := by
  induction h with
  | nil => exact nofun
  | cons hy _ ih => exact List.forall_mem_cons.mpr ⟨hy, ih⟩

theorem names_eq_of_forall₂ {entries copies : Entries α}
    (h : List.Forall₂ (fun entry copy => entry.1 = copy.1) entries copies) :
    entries.names = copies.names := by
  induction h with
  | nil => rfl
  | cons hname _ ih => exact congrArg₂ List.cons hname ih

/-- A copy of a record has the names of the record, so they are distinct if those on the heap are
that the containers are read from. -/
theorem makes_detachFuel {heap : Heap} (hheap : base.Distinct → heap.Distinct) (fuel : Nat)
    (path : List Ref) (v : Value) : MakesNew base now (detachFuel heap fuel path v) := by
  induction fuel generalizing now path v with
  | zero =>
      cases v with
      | list cell => exact .throw _
      | record cell => exact .throw _
      | _ => exact makes_scalar rfl
  | succ fuel ih =>
      cases v with
      | list cell =>
          simp only [detachFuel]
          refine .failIf ?_
          split
          · next hscalar =>
            refine .newList fun v hv => .of_isScalar ?_
            exact List.all_eq_true.mp hscalar v hv
          · refine (Makes.mapM (R := fun heap _ copy => copy.New base heap) (fun v _ => ih _ v)
              fun ext h => h.grow ext).bind fun heap' copies _ hcopies => ?_
            exact .newList (forall_mem_of_forall₂ hcopies)
      | record cell =>
          simp only [detachFuel]
          refine .failIf ?_
          refine (Makes.mapM (R := fun heap (field copy : String × Value) =>
            field.1 = copy.1 ∧ copy.2.New base heap) (fun field _ => ?_)
            fun ext => And.imp_right fun h => h.grow ext).bind ?_
          · refine (ih _ field.2).bind fun heap' copy _ hcopy => .pure fun _ ext _ => ?_
            exact ⟨rfl, hcopy.grow ext⟩
          · intro heap' copies _ hcopies
            refine .newRecord (forall_mem_of_forall₂ (hcopies.imp fun _ _ h => h.2)) fun hbase => ?_
            rw [← names_eq_of_forall₂ (hcopies.imp fun _ _ h => h.1)]
            exact (hheap hbase).names cell
      | _ => exact makes_scalar rfl

theorem makes_detached (v : Value) : MakesNew base now v.detached :=
  Makes.heap.bind fun _ _ _ hheap => makes_detachFuel (hheap.1 ▸ hheap.2.distinct) _ [] v

/-! ## Operators -/

theorem isScalar_integerOr (exact : Int) (rough : Float) :
    (integerOr exact rough).isScalar = true := by
  unfold integerOr
  split <;> rfl

theorem isScalar_of_numeric {op : BinaryOp} {whole : Int64 → Int64 → Option Int64}
    {real : Float → Float → Float} {left right v : Value}
    (h : numeric op whole real left right = .ok v) : v.isScalar = true := by
  unfold numeric at h
  split at h
  · split at h <;> cases h <;> rfl
  · cases h
    rfl
  · cases h

theorem isScalar_of_divide {left right v : Value} (h : divide left right = .ok v) :
    v.isScalar = true := by
  unfold divide at h
  split at h
  · split at h <;> cases h
    rfl
  · cases h

theorem isScalar_of_floorDivide {left right v : Value} (h : floorDivide left right = .ok v) :
    v.isScalar = true := by
  unfold floorDivide at h
  split at h
  · cases h
  · exact isScalar_of_numeric h

theorem isScalar_of_modulo {left right v : Value} (h : modulo left right = .ok v) :
    v.isScalar = true := by
  unfold modulo at h
  split at h
  · cases h
  · exact isScalar_of_numeric h

theorem isScalar_of_power {left right v : Value} (h : power left right = .ok v) :
    v.isScalar = true := by
  unfold power at h
  dsimp only at h
  repeat' split at h
  all_goals first | cases h; rfl | cases h

theorem isScalar_of_plus {operand v : Value} (h : operand.plus = .ok v) : v.isScalar = true := by
  unfold plus at h
  split at h <;> cases h <;> rfl

theorem isScalar_of_negate {operand v : Value} (h : operand.negate = .ok v) :
    v.isScalar = true := by
  unfold negate at h
  split at h <;> cases h
  · exact isScalar_integerOr _ _
  · rfl

theorem makes_add {left right : Value} (hleft : left.New base now) (hright : right.New base now) :
    MakesNew base now (left.add right) := by
  unfold add
  split
  · exact makes_scalar rfl
  · refine Makes.heap.bind fun heap h hnow hheap => .newList fun v hv => ?_
    obtain ⟨rfl, hsealed⟩ := hheap
    rcases List.mem_append.mp hv with hv | hv
    · exact hsealed.items (hleft.grow hnow) v hv
    · exact hsealed.items (hright.grow hnow) v hv
  · exact .lift fun v _ _ _ hv => .of_isScalar (isScalar_of_numeric hv)

/-- Adding makes no records. -/
theorem distinct_add (left right : Value) {store : Store} (h : store.heap.Distinct) :
    (left.add right store).2.heap.Distinct := by
  unfold add
  split <;> exact h

theorem mem_of_mem_repeat {items : List Value} {count : Nat} {v : Value}
    (h : v ∈ Nat.repeat (items ++ ·) count []) : v ∈ items := by
  induction count with
  | zero => cases h
  | succ count ih =>
      rcases List.mem_append.mp h with h | h
      · exact h
      · exact ih h

theorem makes_repeatList {cell : Nat} (hcell : (Value.list cell).New base now) (count : Nat) :
    MakesNew base now (repeatList cell count) := by
  refine Makes.heap.bind fun heap h hnow hheap => ?_
  obtain ⟨rfl, hsealed⟩ := hheap
  refine .ite (.throw _) (.ite (.newList nofun) (.newList fun v hv => ?_))
  exact hsealed.items (hcell.grow hnow) v (mem_of_mem_repeat hv)

theorem isScalar_of_repeatText {s : String} {count : Nat} {v : Value}
    (h : repeatText s count = .ok v) : v.isScalar = true := by
  unfold repeatText at h
  split at h
  · cases h
  · split at h <;> cases h <;> rfl

theorem makes_multiply {left right : Value} (hleft : left.New base now)
    (hright : right.New base now) : MakesNew base now (left.multiply right) := by
  unfold multiply
  split
  · exact .lift fun v _ _ _ hv => .of_isScalar (isScalar_of_repeatText hv)
  · exact .lift fun v _ _ _ hv => .of_isScalar (isScalar_of_repeatText hv)
  · exact makes_repeatList hleft _
  · exact makes_repeatList hright _
  · exact .lift fun v _ _ _ hv => .of_isScalar (isScalar_of_numeric hv)

theorem makes_binary (op : BinaryOp) {left right : Value} (hleft : left.New base now)
    (hright : right.New base now) : MakesNew base now (binary op left right) := by
  cases op with
  | add => exact makes_add hleft hright
  | subtract => exact .lift fun v _ _ _ hv => .of_isScalar (isScalar_of_numeric hv)
  | multiply => exact makes_multiply hleft hright
  | divide => exact .lift fun v _ _ _ hv => .of_isScalar (isScalar_of_divide hv)
  | floorDivide => exact .lift fun v _ _ _ hv => .of_isScalar (isScalar_of_floorDivide hv)
  | modulo => exact .lift fun v _ _ _ hv => .of_isScalar (isScalar_of_modulo hv)
  | power => exact .lift fun v _ _ _ hv => .of_isScalar (isScalar_of_power hv)

theorem makes_unary (op : UnaryOp) (operand : Value) : MakesNew base now (unary op operand) := by
  cases op with
  | not => exact Makes.heap.bind fun _ _ _ _ => makes_scalar rfl
  | plus => exact .lift fun v _ _ _ hv => .of_isScalar (isScalar_of_plus hv)
  | negate => exact .lift fun v _ _ _ hv => .of_isScalar (isScalar_of_negate hv)

/-- An element of a value is one of its contents, or a scalar. -/
theorem mem_contents_of_index {heap : Heap} {target place v : Value}
    (h : index heap target place = .ok v) :
    v.isScalar = true ∨ ∃ r, target.ref? = some r ∧ v ∈ heap.contents r := by
  cases target with
  | list cell =>
      cases hposition : position heap place (heap.items cell).length with
      | error e =>
          simp only [index, hposition] at h
          cases h
      | ok i =>
          simp only [index, hposition] at h
          obtain rfl : (heap.items cell).getD i .none = v := Except.ok.inj h
          rw [List.getD_eq_getElem?_getD]
          cases hi : (heap.items cell)[i]? with
          | none => exact .inl rfl
          | some w => exact .inr ⟨.list cell, rfl, List.mem_of_getElem? hi⟩
  | str text =>
      cases hposition : position heap place text.toList.length with
      | error e =>
          simp only [index, hposition] at h
          cases h
      | ok i =>
          simp only [index, hposition] at h
          cases h
          exact .inl rfl
  | record cell =>
      cases place with
      | str key =>
          obtain rfl : ((heap.fields cell).get? key).getD .none = v := Except.ok.inj h
          cases hkey : (heap.fields cell).get? key with
          | none => exact .inl rfl
          | some w =>
              exact .inr ⟨.record cell, rfl, List.mem_map_of_mem (Entries.mem_of_get? hkey)⟩
      | _ =>
          cases h
          exact .inl rfl
  | _ => cases h

theorem new_of_index {heap : Heap} (hsealed : base.Sealed heap) {target place v : Value}
    (htarget : target.New base heap) (h : index heap target place = .ok v) : v.New base heap := by
  rcases mem_contents_of_index h with hscalar | ⟨r, hr, hv⟩
  · exact .of_isScalar hscalar
  · exact hsealed.inside (htarget r hr).1 (htarget r hr).2 v hv

end Value

end Parlance
