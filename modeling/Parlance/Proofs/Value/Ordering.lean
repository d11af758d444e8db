import Parlance.Proofs.Value.Walk

/-!
# The order of values

A value that is built up from nothing, integers, texts and lists of such values unfolds to a tree.
Equality and order of such values are those of their trees, wherever on the heap the lists are and
however they are shared. On trees the order is that of the first pair of different elements, which
may have none; where there is one, it is a strict order.
-/

namespace Parlance

/-- What a value looks like from outside: nothing, an integer, a text, or a list of trees. -/
inductive Tree where
  | none
  | int (i : Int64)
  | str (s : String)
  | list (items : List Tree)

namespace Tree

/-- What holds of a list if it holds of its elements, holds of every tree. -/
theorem induction {P : Tree → Prop} (none : P .none) (int : ∀ i, P (.int i))
    (str : ∀ s, P (.str s)) (list : ∀ items, (∀ t ∈ items, P t) → P (.list items)) (t : Tree) :
    P t := by
  refine @Tree.rec P (fun items => ∀ t ∈ items, P t) none int str list nofun ?_ t
  intro t items ht hitems s hs
  rcases List.mem_cons.mp hs with rfl | hs
  · exact ht
  · exact hitems s hs

mutual

/-- Compares two trees. Two trees of different kinds have no order, and a pair of lists has none if
their first different elements have none. -/
def compare? : Tree → Tree → Option Ordering
  | .none, .none => some .eq
  | .int i, .int j => some (compare i.toInt j.toInt)
  | .str s, .str t => some (compare s t)
  | .list as, .list bs => compareAll? as bs
  | _, _ => Option.none

/-- Compares two lists of trees by their first different elements, and then by length. -/
def compareAll? : List Tree → List Tree → Option Ordering
  | [], [] => some .eq
  | [], _ :: _ => some .lt
  | _ :: _, [] => some .gt
  | a :: as, b :: bs =>
    match compare? a b with
    | some .eq => compareAll? as bs
    | other => other

end

/-- The order that is asked for: unlike inside lists, nothing has no order, not even to itself. -/
def order : Tree → Tree → Option Ordering
  | .none, .none => Option.none
  | a, b => compare? a b

/-! ## Comparing trees -/

theorem compareAll?_eq_iff {as : List Tree}
    (h : ∀ a ∈ as, ∀ b, compare? a b = some .eq ↔ a = b) (bs : List Tree) :
    compareAll? as bs = some .eq ↔ as = bs := by
  induction as generalizing bs with
  | nil => cases bs <;> simp [compareAll?]
  | cons a as ih =>
      cases bs with
      | nil => simp [compareAll?]
      | cons b bs =>
          have ha := h a List.mem_cons_self b
          have has := ih (fun t ht => h t (List.mem_cons_of_mem a ht)) bs
          rw [compareAll?, List.cons.injEq, ← ha, ← has]
          split
          · next heq => exact (and_iff_right heq).symm
          · next hne => exact ⟨fun heq => (hne heq).elim, fun heq => heq.1⟩

/-- Only a tree compares as equal to itself. -/
theorem compare?_eq_iff (a b : Tree) : compare? a b = some .eq ↔ a = b := by
  induction a using Tree.induction generalizing b with
  | none => cases b <;> simp [compare?]
  | int i => cases b <;> simp [compare?, Int64.toInt_inj]
  | str s => cases b <;> simp [compare?]
  | list as ih =>
      cases b with
      | list bs => rw [compare?, compareAll?_eq_iff ih, Tree.list.injEq]
      | _ => simp [compare?]

theorem compareAll?_swap {as : List Tree}
    (h : ∀ a ∈ as, ∀ b, compare? b a = (compare? a b).map Ordering.swap) (bs : List Tree) :
    compareAll? bs as = (compareAll? as bs).map Ordering.swap := by
  induction as generalizing bs with
  | nil => cases bs <;> rfl
  | cons a as ih =>
      cases bs with
      | nil => rfl
      | cons b bs =>
          have has := ih (fun t ht => h t (List.mem_cons_of_mem a ht)) bs
          rw [compareAll?, compareAll?, h a List.mem_cons_self b, has]
          cases compare? a b with
          | none => rfl
          | some o => cases o <;> rfl

/-- Comparing the other way round gives the reverse order, if any. -/
theorem compare?_swap (a b : Tree) : compare? b a = (compare? a b).map Ordering.swap := by
  induction a using Tree.induction generalizing b with
  | none => cases b <;> rfl
  | int i =>
      cases b with
      | int j => exact congrArg some Std.OrientedCmp.eq_swap
      | _ => rfl
  | str s =>
      cases b with
      | str t => exact congrArg some Std.OrientedCmp.eq_swap
      | _ => rfl
  | list as ih =>
      cases b with
      | list bs => rw [compare?, compare?, compareAll?_swap ih]
      | _ => rfl

/-- A list is below another if its first element is, or if that is the same and the rest is. -/
theorem compareAll?_cons_lt_iff {a b : Tree} {as bs : List Tree} :
    compareAll? (a :: as) (b :: bs) = some .lt ↔
      compare? a b = some .lt ∨ a = b ∧ compareAll? as bs = some .lt := by
  rw [compareAll?, ← compare?_eq_iff a b]
  split
  · next heq => simp [heq]
  · next hne => exact ⟨.inl, fun h => h.elim id fun heq => (hne heq.1).elim⟩

theorem compareAll?_trans {as : List Tree}
    (h : ∀ a ∈ as, ∀ b c, compare? a b = some .lt → compare? b c = some .lt →
      compare? a c = some .lt) {bs cs : List Tree}
    (hab : compareAll? as bs = some .lt) (hbc : compareAll? bs cs = some .lt) :
    compareAll? as cs = some .lt := by
  induction as generalizing bs cs with
  | nil =>
      cases cs with
      | nil => cases bs <;> cases hbc
      | cons c cs => rfl
  | cons a as ih =>
      cases bs with
      | nil => cases hab
      | cons b bs =>
          cases cs with
          | nil => cases hbc
          | cons c cs =>
              have htail := @ih (fun t ht => h t (List.mem_cons_of_mem a ht)) bs cs
              rw [compareAll?_cons_lt_iff] at hab hbc ⊢
              -- The earlier of the two first differences decides.
              rcases hab with hab | ⟨rfl, hab⟩ <;> rcases hbc with hbc | ⟨rfl, hbc⟩
              · exact .inl (h a List.mem_cons_self b c hab hbc)
              · exact .inl hab
              · exact .inl hbc
              · exact .inr ⟨rfl, htail hab hbc⟩

theorem compare?_trans {a b c : Tree} (hab : compare? a b = some .lt)
    (hbc : compare? b c = some .lt) : compare? a c = some .lt := by
  induction a using Tree.induction generalizing b c with
  | none => cases b <;> cases hab
  | int i =>
      cases b with
      | int j =>
          cases c with
          | int k =>
              have hij : compare i.toInt j.toInt = .lt := Option.some.inj hab
              have hjk : compare j.toInt k.toInt = .lt := Option.some.inj hbc
              exact congrArg some (Std.TransCmp.lt_trans hij hjk)
          | _ => cases hbc
      | _ => cases hab
  | str s =>
      cases b with
      | str t =>
          cases c with
          | str u =>
              have hst : compare s t = .lt := Option.some.inj hab
              have htu : compare t u = .lt := Option.some.inj hbc
              exact congrArg some (Std.TransCmp.lt_trans hst htu)
          | _ => cases hbc
      | _ => cases hab
  | list as ih =>
      cases b with
      | list bs =>
          cases c with
          | list cs =>
              rw [compare?] at hab hbc ⊢
              exact compareAll?_trans (fun a ha b c => ih a ha) hab hbc
          | _ => cases hbc
      | _ => cases hab

theorem order_list (as bs : List Tree) : order (.list as) (.list bs) = compareAll? as bs := by
  simp [order, compare?]

/-- Two trees that differ have the order of their comparison. -/
theorem order_of_ne {a b : Tree} (h : a ≠ b) : order a b = compare? a b := by
  cases a <;> cases b <;> first | rfl | exact (h rfl).elim

theorem order_swap (a b : Tree) : order b a = (order a b).map Ordering.swap := by
  by_cases h : a = b
  · subst h
    have hself := compare?_swap a a
    cases a with
    | none => rfl
    | _ => exact hself
  · rw [order_of_ne h, order_of_ne (Ne.symm h), compare?_swap]

theorem compare?_of_order {a b : Tree} {o : Ordering} (h : order a b = some o) :
    compare? a b = some o := by
  by_cases hab : a = b
  · subst hab
    cases a with
    | none => cases h
    | _ => exact h
  · rw [← order_of_ne hab, h]

theorem order_eq_iff {a b : Tree} {o : Ordering} (h : order a b = some o) : o = .eq ↔ a = b := by
  rw [← compare?_eq_iff, compare?_of_order h, Option.some.injEq]

theorem order_trans {a b c : Tree} (hab : order a b = some .lt) (hbc : order b c = some .lt) :
    order a c = some .lt := by
  have hac := compare?_trans (compare?_of_order hab) (compare?_of_order hbc)
  have hne : a ≠ c := by
    rintro rfl
    rw [(compare?_eq_iff a a).mpr rfl] at hac
    cases hac
  rw [order_of_ne hne, hac]

end Tree

namespace Value

/-! ## Values and their trees -/

/-- A value that is built up from nothing, integers, texts and lists of such values. As a list is
built up from below, it does not contain itself. -/
inductive Plain (heap : Heap) : Value → Prop
  | none : Plain heap .none
  | int (i : Int64) : Plain heap (.int i)
  | str (s : String) : Plain heap (.str s)
  | list {cell : Nat} (items : ∀ v ∈ heap.items cell, Plain heap v) : Plain heap (.list cell)

/-- A value unfolds to a tree. -/
inductive Unfolds (heap : Heap) : Value → Tree → Prop
  | none : Unfolds heap .none .none
  | int (i : Int64) : Unfolds heap (.int i) (.int i)
  | str (s : String) : Unfolds heap (.str s) (.str s)
  | list {cell : Nat} {trees : List Tree}
      (items : List.Forall₂ (Unfolds heap) (heap.items cell) trees) :
      Unfolds heap (.list cell) (.list trees)

variable {heap : Heap} {v w : Value} {s t : Tree}

theorem exists_forall₂ {R : α → β → Prop} {as : List α} (h : ∀ a ∈ as, ∃ b, R a b) :
    ∃ bs, List.Forall₂ R as bs := by
  induction as with
  | nil => exact ⟨[], .nil⟩
  | cons a as ih =>
      obtain ⟨b, hb⟩ := h a List.mem_cons_self
      obtain ⟨bs, hbs⟩ := ih fun a' ha' => h a' (List.mem_cons_of_mem a ha')
      exact ⟨b :: bs, .cons hb hbs⟩

theorem forall₂_unique {R : α → β → Prop} {as : List α} {bs cs : List β}
    (h : ∀ b ∈ bs, ∀ a c, R a b → R a c → b = c) (hb : List.Forall₂ R as bs)
    (hc : List.Forall₂ R as cs) : bs = cs := by
  induction hb generalizing cs with
  | nil => cases hc; rfl
  | @cons a b _ bs hab _ ih =>
      cases hc with
      | cons hac hc =>
          rw [h b List.mem_cons_self a _ hab hac,
            ih (fun b' hb' => h b' (List.mem_cons_of_mem b hb')) hc]

theorem Plain.exists_tree (h : Plain heap v) : ∃ t, Unfolds heap v t := by
  induction h with
  | none => exact ⟨_, .none⟩
  | int i => exact ⟨_, .int i⟩
  | str s => exact ⟨_, .str s⟩
  | list _ ih =>
      obtain ⟨trees, h⟩ := exists_forall₂ ih
      exact ⟨.list trees, .list h⟩

theorem Unfolds.unique (hs : Unfolds heap v s) (ht : Unfolds heap v t) : s = t := by
  induction s using Tree.induction generalizing v t with
  | none => cases hs; cases ht; rfl
  | int i => cases hs; cases ht; rfl
  | str s => cases hs; cases ht; rfl
  | list trees ih =>
      cases hs with
      | list hs =>
          cases ht with
          | list ht =>
              have hitems := forall₂_unique (R := Unfolds heap) (fun t ht _ _ => ih t ht) hs ht
              rw [hitems]

/-- A list stands outside of a tree if it unfolds to a larger one only. -/
def Outside (heap : Heap) (t : Tree) (cell : Nat) : Prop :=
  ∀ s, Unfolds heap (.list cell) s → sizeOf t < sizeOf s

theorem Outside.not_unfolds {cell : Nat} (h : Outside heap t cell) :
    ¬ Unfolds heap (.list cell) t :=
  fun ht => Nat.lt_irrefl _ (h t ht)

/-- What is outside of a list is outside of its elements. -/
theorem Outside.inside {cell : Nat} {trees : List Tree} (h : Outside heap (.list trees) cell)
    (ht : t ∈ trees) : Outside heap t cell := by
  intro s hs
  have hitem := List.sizeOf_lt_of_mem ht
  have hlist := h s hs
  rw [Tree.list.sizeOf_spec] at hlist
  omega

/-- A list is outside of its elements. -/
theorem Unfolds.outside {cell : Nat} {trees : List Tree}
    (h : Unfolds heap (.list cell) (.list trees)) (ht : t ∈ trees) : Outside heap t cell := by
  intro s hs
  have hitem := List.sizeOf_lt_of_mem ht
  rw [← h.unique hs, Tree.list.sizeOf_spec]
  omega

/-- Entering a pair of lists: the lists in the left of all pairs that are being compared, told by
`place`, are outside of the elements. -/
theorem Unfolds.outside_all {place : Nat → α} (hplace : place.Injective) {seen : List (α × α)}
    {l r : Nat} {trees : List Tree} (h : Unfolds heap (.list l) (.list trees))
    (outside : ∀ l' r', (place l', place r') ∈ seen → Outside heap (.list trees) l')
    (ht : t ∈ trees) (l' r' : Nat) (hmem : (place l', place r') ∈ (place l, place r) :: seen) :
    Outside heap t l' := by
  rcases List.mem_cons.mp hmem with heq | hmem
  · rw [hplace (congrArg Prod.fst heq)]
    exact h.outside ht
  · exact (outside l' r' hmem).inside ht

/-! ## Equality -/

theorem all_zip_iff {as bs : List Value} {ss ts : List Tree} {f : Value × Value → Bool}
    (ha : List.Forall₂ (Unfolds heap) as ss) (hb : List.Forall₂ (Unfolds heap) bs ts)
    (hf : ∀ a ∈ as, ∀ b ∈ bs, ∀ s ∈ ss, ∀ t, Unfolds heap a s → Unfolds heap b t →
      (f (a, b) = true ↔ s = t)) :
    (as.length == bs.length && (as.zip bs).all f) = true ↔ ss = ts := by
  induction ha generalizing bs ts with
  | nil => cases hb <;> simp
  | @cons a s as ss has _ ih =>
      cases hb with
      | nil => simp
      | @cons b t bs ts hbt hb =>
          have hfirst := hf a List.mem_cons_self b List.mem_cons_self s List.mem_cons_self t has hbt
          have hrest := ih hb fun a' ha' b' hb' s' hs' t' =>
            hf a' (List.mem_cons_of_mem a ha') b' (List.mem_cons_of_mem b hb') s'
              (List.mem_cons_of_mem s hs') t'
          rw [List.cons.injEq, ← hfirst, ← hrest]
          simp [and_left_comm]

/-- Equality of values is that of their trees: the pairs of lists that a comparison is inside of
are met no more. -/
theorem equalFuel_iff {fuel : Nat} {seen : List (Ref × Ref)}
    (walk : Walk (heap.refs ×ˢ heap.refs) seen fuel) (hv : Unfolds heap v s) (hw : Unfolds heap w t)
    (outside : ∀ l r, (.list l, .list r) ∈ seen → Outside heap s l) :
    equalFuel heap fuel seen v w = true ↔ s = t := by
  induction fuel generalizing seen v w s t with
  | zero => exact walk.not_zero.elim
  | succ fuel ih =>
      cases hv with
      | none => cases hw <;> simp [equalFuel, scalarEqual, float?, num?]
      | int i => cases hw <;> simp [equalFuel, scalarEqual, float?, num?]
      | str s => cases hw <;> simp [equalFuel, scalarEqual, float?, num?]
      | @list l ss hss =>
          cases hw with
          | @list r ts hts =>
              have hnew : (.list l, .list r) ∉ seen :=
                fun hmem => (outside l r hmem).not_unfolds (.list hss)
              have hcells {a b : Value} (ha : a ∈ heap.items l) (hb : b ∈ heap.items r) :
                  (.list l, .list r) ∈ heap.refs ×ˢ heap.refs :=
                List.mem_product.mpr ⟨Heap.list_mem_refs ha, Heap.list_mem_refs hb⟩
              have hlist : Ref.list.Injective := fun _ _ => Ref.list.inj
              have hitems := all_zip_iff
                (f := fun pair => equalFuel heap fuel ((.list l, .list r) :: seen) pair.1 pair.2)
                hss hts fun a ha b hb s hs t has hbt =>
                  ih (walk.enter (hcells ha hb) hnew) has hbt
                    (Unfolds.outside_all hlist (.list hss) outside hs)
              have hsame : l = r → ss = ts := by
                rintro rfl
                exact Tree.list.inj (Unfolds.unique (.list hss) (.list hts))
              rw [equalFuel, Bool.or_eq_true, hitems, Bool.or_eq_true, beq_iff_eq,
                List.contains_iff_mem, Tree.list.injEq]
              exact ⟨fun h => h.elim (fun h => h.elim hsame fun h => (hnew h).elim) id, .inr⟩
          | _ => simp [equalFuel, scalarEqual, float?, num?]

theorem equal_iff_tree (hv : Unfolds heap v s) (hw : Unfolds heap w t) :
    equal heap v w = true ↔ s = t := by
  refine equalFuel_iff (.start ?_) hv hw nofun
  rw [List.length_product, heap.length_refs]
  exact Nat.lt_succ_self _

/-! ## Order -/

/-- Lists without different elements are ordered by length. -/
theorem compareAll?_of_find?_none {as bs : List Value} {ss ts : List Tree}
    (ha : List.Forall₂ (Unfolds heap) as ss) (hb : List.Forall₂ (Unfolds heap) bs ts)
    (h : ((as.zip bs).find? fun pair => !equal heap pair.1 pair.2) = Option.none) :
    Tree.compareAll? ss ts = some (compare as.length bs.length) := by
  induction ha generalizing bs ts with
  | nil =>
      cases hb with
      | nil => rfl
      | cons => simp [Tree.compareAll?, Nat.compare_eq_lt.mpr]
  | @cons a s as ss has _ ih =>
      cases hb with
      | nil => simp [Tree.compareAll?, Nat.compare_eq_gt.mpr]
      | @cons b t bs ts hbt hb =>
          rw [List.zip_cons_cons, List.find?_cons] at h
          split at h
          · cases h
          · next hequal =>
              rw [Bool.not_eq_false', equal_iff_tree has hbt] at hequal
              rw [Tree.compareAll?, (Tree.compare?_eq_iff s t).mpr hequal]
              have hlength :
                  compare (as.length + 1) (bs.length + 1) = compare as.length bs.length := by
                simp only [Nat.compare_eq_ite_lt, Nat.add_lt_add_iff_right]
              rw [List.length_cons, List.length_cons, hlength]
              exact ih hb h

/-- Lists with different elements are ordered as the first of these are. -/
theorem compareAll?_of_find?_some {as bs : List Value} {ss ts : List Tree} {a b : Value}
    (ha : List.Forall₂ (Unfolds heap) as ss) (hb : List.Forall₂ (Unfolds heap) bs ts)
    (h : ((as.zip bs).find? fun pair => !equal heap pair.1 pair.2) = some (a, b)) :
    ∃ s ∈ ss, ∃ t, Unfolds heap a s ∧ Unfolds heap b t ∧
      Tree.compareAll? ss ts = Tree.order s t := by
  induction ha generalizing bs ts with
  | nil => cases hb <;> cases h
  | @cons a' s as ss has _ ih =>
      cases hb with
      | nil => cases h
      | @cons b' t bs ts hbt hb =>
          rw [List.zip_cons_cons, List.find?_cons] at h
          split at h
          · next hdiffer =>
              cases h
              have hne : s ≠ t := by
                rw [ne_eq, ← equal_iff_tree has hbt, Bool.not_eq_true]
                simpa using hdiffer
              refine ⟨s, List.mem_cons_self, t, has, hbt, ?_⟩
              rw [Tree.compareAll?, Tree.order_of_ne hne]
              split
              · next heq => exact (hne ((Tree.compare?_eq_iff s t).mp heq)).elim
              · rfl
          · next hequal =>
              rw [Bool.not_eq_false', equal_iff_tree has hbt] at hequal
              obtain ⟨s', hs', t', hs't', horder⟩ := ih hb h
              rw [Tree.compareAll?, (Tree.compare?_eq_iff s t).mpr hequal]
              exact ⟨s', List.mem_cons_of_mem s hs', t', hs't', horder⟩

/-- The order of values is that of their trees, and is an error where these have none. -/
theorem orderFuel_toOption {fuel : Nat} {seen : List (Nat × Nat)}
    (walk : Walk (List.range heap.lists.size ×ˢ List.range heap.lists.size) seen fuel)
    (symbol : String) (hv : Unfolds heap v s) (hw : Unfolds heap w t)
    (outside : ∀ l r, (l, r) ∈ seen → Outside heap s l) :
    (orderFuel heap symbol fuel seen v w).toOption = (Tree.order s t).map some := by
  induction fuel generalizing seen v w s t with
  | zero => exact walk.not_zero.elim
  | succ fuel ih =>
      cases hv with
      | none => cases hw <;> rfl
      | int i => cases hw <;> rfl
      | str s => cases hw <;> rfl
      | @list l ss hss =>
          cases hw with
          | @list r ts hts =>
              have hnew : (l, r) ∉ seen := fun hmem => (outside l r hmem).not_unfolds (.list hss)
              have hfresh : seen.contains (l, r) = false := by simpa using hnew
              rw [orderFuel, hfresh, Tree.order_list]
              simp only [Bool.false_eq_true, if_false]
              cases hpair : ((heap.items l).zip (heap.items r)).find? fun pair =>
                  !equal heap pair.1 pair.2 with
              | none =>
                  rw [compareAll?_of_find?_none hss hts hpair]
                  rfl
              | some pair =>
                  obtain ⟨hl, hr⟩ := List.of_mem_zip (List.mem_of_find?_eq_some hpair)
                  obtain ⟨s, hs, t, has, hbt, horder⟩ := compareAll?_of_find?_some hss hts hpair
                  have hcells := List.mem_product.mpr
                    ⟨List.mem_range.mpr (Heap.lt_size_of_mem_items hl),
                      List.mem_range.mpr (Heap.lt_size_of_mem_items hr)⟩
                  rw [horder]
                  exact ih (walk.enter hcells hnew) has hbt
                    (Unfolds.outside_all Function.injective_id (.list hss) outside hs)
          | _ => rfl

theorem order_toOption (symbol : String) (hv : Unfolds heap v s) (hw : Unfolds heap w t) :
    (order heap symbol v w).toOption = (Tree.order s t).map some := by
  refine orderFuel_toOption (.start ?_) symbol hv hw nofun
  rw [List.length_product, List.length_range]
  exact Nat.lt_succ_self _

theorem order_ok_iff (symbol : String) (hv : Unfolds heap v s) (hw : Unfolds heap w t)
    {answer : Option Ordering} :
    order heap symbol v w = .ok answer ↔ ∃ o, answer = some o ∧ Tree.order s t = some o := by
  have h := order_toOption symbol hv hw
  cases ho : order heap symbol v w <;> rw [ho] at h <;> cases ht : Tree.order s t <;>
    rw [ht] at h <;> cases h <;> simp [eq_comm]

theorem order_error_iff (symbol : String) (hv : Unfolds heap v s) (hw : Unfolds heap w t) :
    (∃ e, order heap symbol v w = .error e) ↔ Tree.order s t = Option.none := by
  have h := order_toOption symbol hv hw
  cases ho : order heap symbol v w <;> rw [ho] at h <;> cases ht : Tree.order s t <;>
    rw [ht] at h <;> cases h <;> simp

/-- The order of plain values is strict and goes with their equality: it is an error one way iff it
is the other way round, else the reverse, and without difference exactly for equal values. It passes
through a value in between, however deep in the lists the first differences are. -/
theorem order_strict {a b c : Value} (ha : Plain heap a) (hb : Plain heap b) (hc : Plain heap c)
    (symbol : String) :
    ((∃ e, order heap symbol a b = .error e) ↔ ∃ e, order heap symbol b a = .error e) ∧
      (∀ answer, order heap symbol a b = .ok answer → ∃ o, answer = some o ∧
        order heap symbol b a = .ok (some o.swap) ∧ (o = .eq ↔ equal heap a b = true)) ∧
      (order heap symbol a b = .ok (some .lt) → order heap symbol b c = .ok (some .lt) →
        order heap symbol a c = .ok (some .lt)) := by
  obtain ⟨s, hs⟩ := ha.exists_tree
  obtain ⟨t, ht⟩ := hb.exists_tree
  obtain ⟨u, hu⟩ := hc.exists_tree
  refine ⟨?_, fun answer h => ?_, fun hab hbc => ?_⟩
  · rw [order_error_iff symbol hs ht, order_error_iff symbol ht hs, Tree.order_swap s t,
      Option.map_eq_none_iff]
  · obtain ⟨o, rfl, ho⟩ := (order_ok_iff symbol hs ht).mp h
    refine ⟨o, rfl, (order_ok_iff symbol ht hs).mpr ⟨o.swap, rfl, ?_⟩, ?_⟩
    · rw [Tree.order_swap s t, ho]
      rfl
    · rw [Tree.order_eq_iff ho, equal_iff_tree hs ht]
  · obtain ⟨_, ⟨⟩, hst⟩ := (order_ok_iff symbol hs ht).mp hab
    obtain ⟨_, ⟨⟩, htu⟩ := (order_ok_iff symbol ht hu).mp hbc
    exact (order_ok_iff symbol hs hu).mpr ⟨.lt, rfl, Tree.order_trans hst htu⟩

/-- `[1, ["a", None]]` is below `[1, ["b", 3], None]`, and this below `[2, "z"]`; the later elements
have no order among each other. -/
theorem order_strict_of_mixed_lists :
    let heap : Heap := { lists := #[[.str "a", .none], [.int 1, .list 0], [.str "b", .int 3],
      [.int 1, .list 2, .none], [.int 2, .str "z"]] }
    order heap "<" (.list 3) (.list 1) = .ok (some .gt) ∧
      order heap "<" (.list 1) (.list 4) = .ok (some .lt) := by
  intro heap
  have pair {cell : Nat} {v w : Value} (h : heap.items cell = [v, w]) (hv : Plain heap v)
      (hw : Plain heap w) : Plain heap (.list cell) := by
    refine .list ?_
    rw [h]
    exact List.forall_mem_cons.mpr ⟨hv, List.forall_mem_cons.mpr ⟨hw, nofun⟩⟩
  have ha : Plain heap (.list 1) := pair rfl (.int 1) (pair rfl (.str "a") .none)
  have hb : Plain heap (.list 3) := by
    have hinner : Plain heap (.list 2) := pair rfl (.str "b") (.int 3)
    exact .list (List.forall_mem_cons.mpr ⟨.int 1, List.forall_mem_cons.mpr
      ⟨hinner, List.forall_mem_cons.mpr ⟨.none, nofun⟩⟩⟩)
  have hc : Plain heap (.list 4) := pair rfl (.int 2) (.str "z")
  have hab : order heap "<" (.list 1) (.list 3) = .ok (some .lt) := by rfl
  have hbc : order heap "<" (.list 3) (.list 4) = .ok (some .lt) := by rfl
  obtain ⟨-, hback, htrans⟩ := order_strict ha hb hc "<"
  obtain ⟨_, ⟨⟩, hba, -⟩ := hback _ hab
  exact ⟨hba, htrans hab hbc⟩

end Value

end Parlance
