import Parlance.Proofs.Value.Freshness

/-!
# What has a detached copy

A value has a detached copy exactly if no container below it contains itself: the walk that makes the
copy fails where it meets a container that it is inside of, and nowhere else, however often containers
are shared. The copy of a shared container is made anew for each place in which it is met, so no two
places in the copy lead to one container.
-/

namespace Parlance

open Relation

namespace Heap

variable {heap heap' base : Heap} {v : Value} {r : Ref}

/-- What is reached from a value is its own container or is reached from something in it. -/
theorem Reaches.cases {made : Ref} (hv : v.ref? = some made) (h : heap.Reaches v r) :
    r = made ∨ ∃ w ∈ heap.contents made, heap.Reaches w r := by
  obtain ⟨outer, houter, path⟩ := h
  obtain rfl : made = outer := Option.some.inj (hv.symm.trans houter)
  rcases path.cases_head with rfl | ⟨inner, ⟨w, hw, hinner⟩, path⟩
  · exact .inl rfl
  · exact .inr ⟨w, hw, inner, hinner, path⟩

/-! ## Walks that meet no container again -/

/-- Below a value there is none of some containers, and none that contains itself. -/
def Avoids (heap : Heap) (path : List Ref) (v : Value) : Prop :=
  ∀ r, heap.Reaches v r → r ∉ path ∧ ¬ TransGen heap.Holds r r

theorem Avoids.of_isScalar (h : v.isScalar = true) (path : List Ref) : heap.Avoids path v :=
  fun r hr => (not_reaches_of_isScalar h r hr).elim

theorem Avoids.of_contents {path : List Ref} (hv : v.ref? = some r) (hr : r ∉ path)
    (h : ∀ w ∈ heap.contents r, heap.Avoids (r :: path) w) : heap.Avoids path v := by
  intro r' hr'
  rcases hr'.cases hv with rfl | ⟨w, hw, hr'⟩
  · refine ⟨hr, fun cycle => ?_⟩
    obtain ⟨inner, ⟨w, hw, hinner⟩, back⟩ := TransGen.head'_iff.mp cycle
    exact (h w hw r' ⟨inner, hinner, back⟩).1 List.mem_cons_self
  · obtain ⟨hnew, acyclic⟩ := h w hw r' hr'
    exact ⟨fun hmem => hnew (List.mem_cons_of_mem r hmem), acyclic⟩

/-! ## Places -/

/-- Going down from a value by positions, each among the contents of the container before it, leads
to a container. -/
inductive Leads (heap : Heap) : List Nat → Value → Ref → Prop
  | here {v : Value} {r : Ref} (hv : v.ref? = some r) : Leads heap [] v r
  | inside {v w : Value} {outer r : Ref} {i : Nat} {place : List Nat} (hv : v.ref? = some outer)
      (hw : (heap.contents outer)[i]? = some w) (more : Leads heap place w r) :
      Leads heap (i :: place) v r

/-- No two places in a value lead to one container. -/
def Unshared (heap : Heap) (v : Value) : Prop :=
  ∀ p q r, heap.Leads p v r → heap.Leads q v r → p = q

theorem Leads.reaches {place : List Nat} (h : heap.Leads place v r) : heap.Reaches v r := by
  induction h with
  | here hv => exact .refl hv
  | inside hv hw _ ih => exact ih.inside (List.mem_of_getElem? hw) hv

/-- A value that was made since an older heap: everything below it is new, and in one place only. -/
structure Own (base heap : Heap) (v : Value) : Prop where
  new {r : Ref} (h : heap.Reaches v r) : r ∈ heap.refs ∧ r ∉ base.refs
  unshared : heap.Unshared v

theorem Own.of_isScalar (base heap : Heap) (h : v.isScalar = true) : base.Own heap v := by
  refine ⟨fun {r} hr => (not_reaches_of_isScalar h r hr).elim, fun p q r hp _ => ?_⟩
  exact (not_reaches_of_isScalar h r hp.reaches).elim

theorem Own.reaches_iff (h : base.Own heap v) (ext : heap.Extends heap') (r : Ref) :
    heap'.Reaches v r ↔ heap.Reaches v r :=
  Heap.reaches_iff (fun _ hr => ext.agreeAt (h.new hr).1) r

theorem leads_of_agreeAt {place : List Nat} (same : ∀ r, heap.Reaches v r → heap.AgreeAt heap' r)
    (h : heap'.Leads place v r) : heap.Leads place v r := by
  induction h with
  | here hv => exact .here hv
  | @inside v w outer r i place hv hw _ ih =>
      rw [(same outer (.refl hv)).contents] at hw
      exact .inside hv hw (ih fun r hr => same r (hr.inside (List.mem_of_getElem? hw) hv))

theorem Own.grow (h : base.Own heap v) (ext : heap.Extends heap') : base.Own heap' v := by
  refine ⟨fun hr => ?_, fun p q r hp hq => ?_⟩
  · obtain ⟨hmem, hnew⟩ := h.new ((h.reaches_iff ext _).mp hr)
    exact ⟨ext.refs_subset hmem, hnew⟩
  · have same : ∀ r, heap.Reaches v r → heap.AgreeAt heap' r := fun _ hr =>
      ext.agreeAt (h.new hr).1
    exact h.unshared p q r (leads_of_agreeAt same hp) (leads_of_agreeAt same hq)

theorem Own.older {older : Heap} (h : base.Own heap v) (ext : older.Extends base) :
    older.Own heap v :=
  ⟨fun hr => ⟨(h.new hr).1, fun hold => (h.new hr).2 (ext.refs_subset hold)⟩, h.unshared⟩

/-- Values that were made since an older heap, each apart from the others. -/
structure AllOwn (base heap : Heap) (vs : List Value) : Prop where
  own : ∀ v ∈ vs, base.Own heap v
  apart : vs.Pairwise fun v w => ∀ r, heap.Reaches v r → ¬ heap.Reaches w r

theorem AllOwn.of_isScalar (base heap : Heap) {vs : List Value}
    (h : ∀ v ∈ vs, v.isScalar = true) : base.AllOwn heap vs := by
  refine ⟨fun v hv => .of_isScalar base heap (h v hv), ?_⟩
  exact List.pairwise_of_forall_mem_list fun v hv _ _ r hr =>
    (not_reaches_of_isScalar (h v hv) r hr).elim

/-- What is made later is apart from what was there. -/
theorem AllOwn.cons {middle : Heap} {vs : List Value} (hfirst : base.Extends middle)
    (ext : middle.Extends heap) (hv : base.Own middle v) (hvs : middle.AllOwn heap vs) :
    base.AllOwn heap (v :: vs) := by
  refine ⟨List.forall_mem_cons.mpr ⟨hv.grow ext, fun w hw => (hvs.own w hw).older hfirst⟩,
    List.pairwise_cons.mpr ⟨fun w hw r hr hother => ?_, hvs.apart⟩⟩
  exact ((hvs.own w hw).new hother).2 (hv.new ((hv.reaches_iff ext r).mp hr)).1

/-- Places in values that are apart are the same place if they lead to one container. -/
theorem AllOwn.eq_of_reaches {vs : List Value} (h : base.AllOwn heap vs) {i j : Nat} {v w : Value}
    (hv : vs[i]? = some v) (hw : vs[j]? = some w) (hrv : heap.Reaches v r)
    (hrw : heap.Reaches w r) : i = j := by
  obtain ⟨hi, rfl⟩ := List.getElem?_eq_some_iff.mp hv
  obtain ⟨hj, rfl⟩ := List.getElem?_eq_some_iff.mp hw
  have apart := List.pairwise_iff_getElem.mp h.apart
  rcases Nat.lt_trichotomy i j with hlt | heq | hgt
  · exact absurd hrw (apart i j hi hj hlt r hrv)
  · exact heq
  · exact absurd hrv (apart j i hj hi hgt r hrw)

/-- A new container of values that were made since an older heap, each apart from the others. -/
theorem AllOwn.container {vs : List Value} (h : base.AllOwn heap vs) (hbase : base.Extends heap)
    (ext : heap.Extends heap') (hv : v.ref? = some r) (hr : r ∈ heap'.refs) (hnew : r ∉ heap.refs)
    (hcontents : heap'.contents r = vs) : base.Own heap' v := by
  have inside {w : Value} {r' : Ref} (hw : w ∈ vs) (hr' : heap'.Reaches w r') :
      heap.Reaches w r' := ((h.own w hw).reaches_iff ext r').mp hr'
  have hself {w : Value} (hw : w ∈ vs) : ¬ heap'.Reaches w r := fun hreach =>
    hnew ((h.own w hw).new (inside hw hreach)).1
  refine ⟨fun {r'} hr' => ?_, fun p q r' hp hq => ?_⟩
  · rcases hr'.cases hv with rfl | ⟨w, hw, hr'⟩
    · exact ⟨hr, fun hold => hnew (hbase.refs_subset hold)⟩
    · rw [hcontents] at hw
      exact ((h.own w hw).grow ext).new hr'
  · cases hp with
    | here hp =>
        obtain rfl : r = r' := Option.some.inj (hv.symm.trans hp)
        cases hq with
        | here => rfl
        | inside hq hw more =>
            obtain rfl := Option.some.inj (hv.symm.trans hq)
            rw [hcontents] at hw
            exact absurd more.reaches (hself (List.mem_of_getElem? hw))
    | inside hp hw more =>
        obtain rfl := Option.some.inj (hv.symm.trans hp)
        rw [hcontents] at hw
        cases hq with
        | here hq =>
            obtain rfl := Option.some.inj (hv.symm.trans hq)
            exact absurd more.reaches (hself (List.mem_of_getElem? hw))
        | inside hq hw' more' =>
            obtain rfl := Option.some.inj (hv.symm.trans hq)
            rw [hcontents] at hw'
            have hmem := List.mem_of_getElem? hw
            obtain rfl := h.eq_of_reaches hw hw' (inside hmem more.reaches)
              (inside (List.mem_of_getElem? hw') more'.reaches)
            obtain rfl := Option.some.inj (hw.symm.trans hw')
            rw [((h.own _ hmem).grow ext).unshared _ _ _ more more']

end Heap

namespace Eval

variable {store store' : Store}

theorem Grows.extends_of_run {x : Eval α} (hx : Grows x) {a : α}
    (h : x store = (.ok a, store')) : store.heap.Extends store'.heap := by
  have grown := hx store
  rwa [h] at grown

theorem mapM_ok_of_mem {f : α → Eval β} {xs : List α} {ys : List β}
    (h : xs.mapM f store = (.ok ys, store')) {x : α} (hx : x ∈ xs) :
    ∃ before y after, f x before = (.ok y, after) := by
  induction xs generalizing store store' ys with
  | nil => cases hx
  | cons first xs ih =>
      rw [List.mapM_cons] at h
      obtain ⟨y, middle, hy, h⟩ := bind_eq_ok.mp h
      obtain ⟨ys', last, hys, -⟩ := bind_eq_ok.mp h
      rcases List.mem_cons.mp hx with rfl | hx
      · exact ⟨store, y, middle, hy⟩
      · exact ih hys hx

/-- A computation that fails in one way only. -/
def FailsWith (e : Error) (x : Eval α) : Prop :=
  ∀ store e', (x store).1 = .error e' → e' = e

theorem FailsWith.throw (e : Error) : FailsWith e (MonadExcept.throw e : Eval α) :=
  fun _ _ h => (Except.error.inj h).symm

theorem FailsWith.never {e : Error} {x : Eval α} (h : ∀ store, ∃ a, (x store).1 = .ok a) :
    FailsWith e x := by
  intro store e' he
  obtain ⟨a, ha⟩ := h store
  rw [ha] at he
  cases he

theorem FailsWith.bind {e : Error} {x : Eval α} {f : α → Eval β} (hx : FailsWith e x)
    (hf : ∀ a, FailsWith e (f a)) : FailsWith e (x >>= f) := by
  intro store e' h
  have first := hx store
  rw [bind_run] at h
  rcases hrun : x store with ⟨e'' | a, middle⟩
  all_goals rw [hrun] at h first
  · exact first e' (congrArg Except.error (Except.error.inj h))
  · exact hf a middle e' h

theorem FailsWith.mapM {e : Error} {f : α → Eval β} (hf : ∀ a, FailsWith e (f a)) (xs : List α) :
    FailsWith e (xs.mapM f) := by
  induction xs with
  | nil => exact .never fun _ => ⟨[], rfl⟩
  | cons x xs ih =>
      rw [List.mapM_cons]
      exact (hf x).bind fun _ => ih.bind fun _ => .never fun _ => ⟨_, rfl⟩

end Eval

namespace Value

open Eval

variable {heap : Heap} {fuel : Nat} {path : List Ref} {cell : Nat} {v copy : Value}
  {store store' : Store}

/-! ## One step of a walk -/

theorem detachFuel_scalar (heap : Heap) (fuel : Nat) (path : List Ref) (h : v.isScalar = true) :
    detachFuel heap fuel path v = pure v := by
  cases v with
  | list cell => cases h
  | record cell => cases h
  | _ => cases fuel <;> rfl

/-- A list of scalars is copied as any other list is. -/
theorem mapM_detachFuel_scalars (heap : Heap) (fuel : Nat) (path : List Ref) {items : List Value}
    (h : items.all isScalar = true) : items.mapM (detachFuel heap fuel path) = pure items := by
  induction items with
  | nil => rfl
  | cons v vs ih =>
      simp only [List.all_cons, Bool.and_eq_true] at h
      rw [List.mapM_cons, detachFuel_scalar heap fuel path h.1, ih h.2]
      rfl

/-- The copy of a field. -/
def detachField (heap : Heap) (fuel : Nat) (path : List Ref) (field : String × Value) :
    Eval (String × Value) := do
  let copy ← detachFuel heap fuel path field.2
  return (field.1, copy)

theorem detachFuel_list (heap : Heap) (fuel : Nat) (path : List Ref) (cell : Nat) :
    detachFuel heap (fuel + 1) path (.list cell) =
      if path.contains (.list cell) then throw .selfContaining
      else (heap.items cell).mapM (detachFuel heap fuel (.list cell :: path)) >>= newList := by
  simp only [detachFuel]
  by_cases hmem : path.contains (.list cell) = true
  · rw [if_pos hmem, if_pos hmem]
    rfl
  · rw [if_neg hmem, if_neg hmem]
    split
    · next hscalar => rw [mapM_detachFuel_scalars heap fuel _ hscalar, pure_bind]
    · rfl

theorem detachFuel_record (heap : Heap) (fuel : Nat) (path : List Ref) (cell : Nat) :
    detachFuel heap (fuel + 1) path (.record cell) =
      if path.contains (.record cell) then throw .selfContaining
      else (heap.fields cell).mapM (detachField heap fuel (.record cell :: path)) >>= newRecord := by
  simp only [detachFuel]
  by_cases hmem : path.contains (.record cell) = true
  · rw [if_pos hmem, if_pos hmem]
    rfl
  · rw [if_neg hmem, if_neg hmem]
    rfl

/-- A list is copied by copying its elements, inside of it. -/
theorem detachFuel_list_ok
    (h : detachFuel heap (fuel + 1) path (.list cell) store = (.ok copy, store')) :
    .list cell ∉ path ∧ ∃ copies middle,
      (heap.items cell).mapM (detachFuel heap fuel (.list cell :: path)) store =
          (.ok copies, middle) ∧
        newList copies middle = (.ok copy, store') := by
  rw [detachFuel_list] at h
  split at h
  · cases h
  · next hnew => exact ⟨by simpa using hnew, bind_eq_ok.mp h⟩

/-- A record is copied by copying its fields, inside of it. -/
theorem detachFuel_record_ok
    (h : detachFuel heap (fuel + 1) path (.record cell) store = (.ok copy, store')) :
    .record cell ∉ path ∧ ∃ copies middle,
      (heap.fields cell).mapM (detachField heap fuel (.record cell :: path)) store =
          (.ok copies, middle) ∧
        newRecord copies middle = (.ok copy, store') := by
  rw [detachFuel_record] at h
  split at h
  · cases h
  · next hnew => exact ⟨by simpa using hnew, bind_eq_ok.mp h⟩

theorem grows_detachField (heap : Heap) (fuel : Nat) (path : List Ref) (field : String × Value) :
    Grows (detachField heap fuel path field) :=
  (grows_detachFuel heap fuel path field.2).bind fun _ => .pure _

theorem detachField_ok {field copied : String × Value}
    (h : detachField heap fuel path field store = (.ok copied, store')) :
    detachFuel heap fuel path field.2 store = (.ok copied.2, store') := by
  obtain ⟨copy, middle, hcopy, hpure⟩ := bind_eq_ok.mp h
  cases hpure
  exact hcopy

/-! ## What a walk that ends has passed -/

theorem avoids_of_detachFuel (h : detachFuel heap fuel path v store = (.ok copy, store')) :
    heap.Avoids path v := by
  induction fuel generalizing path v store copy store' with
  | zero =>
      cases v with
      | list cell => cases h
      | record cell => cases h
      | _ => exact .of_isScalar rfl path
  | succ fuel ih =>
      cases v with
      | list cell =>
          obtain ⟨hnew, copies, middle, hcopies, -⟩ := detachFuel_list_ok h
          refine .of_contents rfl hnew fun w hw => ?_
          obtain ⟨_, _, _, hcopy⟩ := mapM_ok_of_mem hcopies hw
          exact ih hcopy
      | record cell =>
          obtain ⟨hnew, copies, middle, hcopies, -⟩ := detachFuel_record_ok h
          refine .of_contents rfl hnew fun w hw => ?_
          obtain ⟨field, hfield, rfl⟩ := List.mem_map.mp hw
          obtain ⟨_, _, _, hcopy⟩ := mapM_ok_of_mem hcopies hfield
          exact ih (detachField_ok hcopy)
      | _ => exact .of_isScalar rfl path

/-! ## What a walk makes -/

/-- Values that are made one after another are apart. -/
theorem allOwn_of_mapM (val : β → Value) {f : α → Eval β} {xs : List α} {ys : List β}
    (grows : ∀ x, Grows (f x))
    (own : ∀ x before y after, f x before = (.ok y, after) → before.heap.Own after.heap (val y))
    (h : xs.mapM f store = (.ok ys, store')) :
    store.heap.AllOwn store'.heap (ys.map val) := by
  induction xs generalizing store ys with
  | nil =>
      cases h
      exact .of_isScalar _ _ nofun
  | cons x xs ih =>
      rw [List.mapM_cons] at h
      obtain ⟨y, middle, hy, h⟩ := bind_eq_ok.mp h
      obtain ⟨ys', last, hys, hpure⟩ := bind_eq_ok.mp h
      cases hpure
      have first := (grows x).extends_of_run hy
      have others := (Grows.mapM grows xs).extends_of_run hys
      exact .cons first others (own x store y middle hy) (ih hys)

theorem own_of_newList {base : Heap} {items : List Value} (h : base.AllOwn store.heap items)
    (hbase : base.Extends store.heap) (hrun : newList items store = (.ok v, store')) :
    base.Own store'.heap v := by
  cases hrun
  refine h.container hbase (store.heap.extends_newList items) rfl ?_ ?_ ?_
  · simp [Heap.list_mem_refs_iff]
  · simp [Heap.list_mem_refs_iff]
  · simp [Heap.contents, Heap.items]

theorem own_of_newRecord {base : Heap} {fields : Entries Value}
    (h : base.AllOwn store.heap (fields.map Prod.snd)) (hbase : base.Extends store.heap)
    (hrun : newRecord fields store = (.ok v, store')) : base.Own store'.heap v := by
  cases hrun
  refine h.container hbase (store.heap.extends_newRecord fields) rfl ?_ ?_ ?_
  · simp [Heap.record_mem_refs_iff]
  · simp [Heap.record_mem_refs_iff]
  · simp [Heap.contents, Heap.fields]

theorem own_of_detachFuel (h : detachFuel heap fuel path v store = (.ok copy, store')) :
    store.heap.Own store'.heap copy := by
  induction fuel generalizing path v store copy store' with
  | zero =>
      cases v with
      | list cell => cases h
      | record cell => cases h
      | _ =>
          cases h
          exact .of_isScalar _ _ rfl
  | succ fuel ih =>
      cases v with
      | list cell =>
          obtain ⟨-, copies, middle, hcopies, hmade⟩ := detachFuel_list_ok h
          have grows := grows_detachFuel heap fuel (.list cell :: path)
          have all := allOwn_of_mapM id grows (fun _ _ _ _ hcopy => ih hcopy) hcopies
          rw [List.map_id] at all
          exact own_of_newList all ((Grows.mapM grows _).extends_of_run hcopies) hmade
      | record cell =>
          obtain ⟨-, copies, middle, hcopies, hmade⟩ := detachFuel_record_ok h
          have grows := grows_detachField heap fuel (.record cell :: path)
          have all := allOwn_of_mapM Prod.snd grows
            (fun _ _ _ _ hcopy => ih (detachField_ok hcopy)) hcopies
          exact own_of_newRecord all ((Grows.mapM grows _).extends_of_run hcopies) hmade
      | _ =>
          cases h
          exact .of_isScalar _ _ rfl

/-! ## How a walk fails -/

theorem failsWith_detachFuel (heap : Heap) (fuel : Nat) (path : List Ref) (v : Value) :
    FailsWith .selfContaining (detachFuel heap fuel path v) := by
  induction fuel generalizing path v with
  | zero =>
      cases v with
      | list cell => exact .throw _
      | record cell => exact .throw _
      | _ => exact .never fun _ => ⟨_, rfl⟩
  | succ fuel ih =>
      cases v with
      | list cell =>
          rw [detachFuel_list]
          split
          · exact .throw _
          · exact (FailsWith.mapM (ih _) _).bind fun _ => .never fun _ => ⟨_, rfl⟩
      | record cell =>
          have each (field : String × Value) :
              FailsWith .selfContaining (detachField heap fuel (.record cell :: path) field) :=
            (ih _ field.2).bind fun _ => .never fun _ => ⟨_, rfl⟩
          rw [detachFuel_record]
          split
          · exact .throw _
          · exact (FailsWith.mapM each _).bind fun _ => .never fun _ => ⟨_, rfl⟩
      | _ => exact .never fun _ => ⟨_, rfl⟩

/-! ## Detached copies -/

/-- A value below which no container contains itself is copied. -/
theorem detached_of_acyclic (store : Store)
    (acyclic : ∀ r, store.heap.Reaches v r → ¬ TransGen store.heap.Holds r r) :
    ∃ copy store', v.detached store = (.ok copy, store') ∧
      Copied store.heap store'.heap v copy := by
  have hroom : store.heap.refs.length < store.heap.cellCount + 1 := by
    rw [Heap.length_refs]
    omega
  have same : ∀ r, store.heap.Reaches v r → store.heap.AgreeAt store.heap r := fun r _ => by
    cases r <;> rfl
  obtain ⟨copy, store', hrun, -, hcopied⟩ :=
    detachFuel_copies (.refl store.heap) (.start hroom) (by simp) acyclic same store (.refl _)
  exact ⟨copy, store', hrun, hcopied⟩

/-- Detaching always ends, and gives a copy exactly if no container that the value leads to contains
itself. The copy has the same scalars, elements and keys in the same order, leads to new containers
only, and to each of them in one place. A failure says that a container contains itself. Either way
the containers that were there stay as they are. -/
theorem detached_iff_acyclic (v : Value) (store : Store) :
    (∀ fuel, store.heap.cellCount < fuel →
        detachFuel store.heap fuel [] v store = v.detached store) ∧
      ((∃ copy, (v.detached store).1 = .ok copy) ↔
        ∀ r, store.heap.Reaches v r → ¬ TransGen store.heap.Holds r r) ∧
      (∀ copy store', v.detached store = (.ok copy, store') →
        Copied store.heap store'.heap v copy ∧
          (∀ r, store'.heap.Reaches copy r → r ∈ store'.heap.refs ∧ r ∉ store.heap.refs) ∧
          store'.heap.Unshared copy) ∧
      (∀ e store', v.detached store = (.error e, store') →
        e = .selfContaining ∧ e.errorClass = .value) ∧
      store.heap.Extends (v.detached store).2.heap := by
  have avoids {copy : Value} {store' : Store} (h : v.detached store = (.ok copy, store')) :
      ∀ r, store.heap.Reaches v r → ¬ TransGen store.heap.Holds r r := fun r hr =>
    (avoids_of_detachFuel h r hr).2
  refine ⟨fun fuel hfuel => ?_, ⟨?_, fun acyclic => ?_⟩, fun copy store' h => ?_, fun e store' h => ?_,
    grows_detached v store⟩
  · have hroom : store.heap.refs.length < fuel := by rwa [Heap.length_refs]
    have hroom' : store.heap.refs.length < store.heap.cellCount + 1 := by
      rw [Heap.length_refs]
      omega
    exact congrFun (detachFuel_eq (.start hroom) (.start hroom') v) store
  · rintro ⟨copy, hcopy⟩
    exact avoids (Prod.ext hcopy rfl)
  · obtain ⟨copy, store', hrun, -⟩ := detached_of_acyclic store acyclic
    exact ⟨copy, congrArg Prod.fst hrun⟩
  · obtain ⟨copy', store'', hrun, hcopied⟩ := detached_of_acyclic store (avoids h)
    rw [h] at hrun
    cases hrun
    have own := own_of_detachFuel h
    exact ⟨hcopied, fun r hr => own.new hr, own.unshared⟩
  · obtain rfl := failsWith_detachFuel _ _ _ _ store e (congrArg Prod.fst h)
    exact ⟨rfl, rfl⟩

/-- A list, one that holds it twice, and one that holds itself. -/
def nestsStore : Store where
  heap := { lists := #[[.int 7], [.list 0, .list 0], [.list 2]] }

/-- The list that holds another one twice is copied with two lists in it, and the one that holds
itself has no copy. -/
theorem detached_iff_acyclic_nests :
    ∃ store', detached (.list 1) nestsStore = (.ok (.list 5), store') ∧
      store'.heap.items 5 = [.list 3, .list 4] ∧ store'.heap.Unshared (.list 5) ∧
      ¬ ∃ copy, (detached (.list 2) nestsStore).1 = .ok copy := by
  obtain ⟨-, -, copies, -, -⟩ := detached_iff_acyclic (.list 1) nestsStore
  obtain ⟨-, copied_iff, -, -, -⟩ := detached_iff_acyclic (.list 2) nestsStore
  have itself : nestsStore.heap.Holds (.list 2) (.list 2) := ⟨.list 2, List.mem_cons_self, rfl⟩
  refine ⟨_, rfl, rfl, (copies _ _ rfl).2.2, fun hcopy => ?_⟩
  exact copied_iff.mp hcopy (.list 2) ⟨.list 2, rfl, .refl⟩ (.single itself)

end Value

end Parlance
