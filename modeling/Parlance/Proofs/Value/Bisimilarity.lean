import Mathlib.Data.List.Perm.Subperm
import Parlance.NameMap
import Parlance.Proofs.Value.Copy
import Parlance.Proofs.Value.DistinctNames

/-!
# Equal values unfold alike

Comparing two values keeps the pairs of containers that it is inside of and takes a pair that it
meets again for equal. That is sound because such a pair is still being compared: what is taken for
granted about it inside is what is shown about it outside. So two values are equal exactly if some
relation between values holds of them and is kept by every step into containers, and equally if no
number of steps finds a difference.
-/

namespace Parlance

namespace Entries

theorem mem_names_of_get? {entries : Entries α} {name : String} {v : α}
    (h : entries.get? name = some v) : name ∈ entries.names :=
  List.mem_map_of_mem (mem_of_get? h)

theorem exists_get?_of_mem_names {entries : Entries α} {name : String} (h : name ∈ entries.names) :
    ∃ v, entries.get? name = some v := by
  induction entries with
  | nil => cases h
  | cons entry entries ih =>
      rw [get?, NameMap.lookup_cons_ite]
      split
      · exact ⟨entry.2, rfl⟩
      · next hne => exact ih ((List.mem_cons.mp h).resolve_left hne)

/-- Where no name occurs twice, every entry is the one that its name leads to. -/
theorem get?_of_mem {entries : Entries α} (distinct : entries.names.Nodup) {entry : String × α}
    (h : entry ∈ entries) : entries.get? entry.1 = some entry.2 := by
  induction entries with
  | nil => cases h
  | cons other entries ih =>
      obtain ⟨hnew, hrest⟩ := List.nodup_cons.mp distinct
      rw [get?, NameMap.lookup_cons_ite]
      rcases List.mem_cons.mp h with rfl | h
      · exact if_pos rfl
      · have hne : entry.1 ≠ other.1 := fun heq => hnew (heq ▸ List.mem_map_of_mem h)
        rw [if_neg hne]
        exact ih hrest h

end Entries

namespace Value

/-- Two values match if what is directly inside them is related: equal scalars, a container and
itself, lists element by element, records name by name in any order. -/
inductive Matches (heap : Heap) (R : Value → Value → Prop) : Value → Value → Prop
  | scalar {v w : Value} (left : v.isScalar = true) (right : w.isScalar = true)
      (equal : scalarEqual v w = true) : Matches heap R v w
  | same {v : Value} (container : v.isScalar = false) : Matches heap R v v
  | list {l r : Nat} (items : List.Forall₂ R (heap.items l) (heap.items r)) :
      Matches heap R (.list l) (.list r)
  | record {l r : Nat}
      (names : ∀ name, name ∈ (heap.fields l).names ↔ name ∈ (heap.fields r).names)
      (values : ∀ name v w, (heap.fields l).get? name = some v →
        (heap.fields r).get? name = some w → R v w) : Matches heap R (.record l) (.record r)

/-- A relation that every step into containers keeps. -/
def IsBisimulation (heap : Heap) (R : Value → Value → Prop) : Prop :=
  ∀ v w, R v w → Matches heap R v w

/-- Values that some bisimulation relates. -/
def Bisimilar (heap : Heap) (v w : Value) : Prop :=
  ∃ R, IsBisimulation heap R ∧ R v w

/-- No difference between two values is found within some steps into containers. -/
def AlikeTo (heap : Heap) : Nat → Value → Value → Prop
  | 0, _, _ => True
  | depth + 1, v, w => Matches heap (AlikeTo heap depth) v w

variable {heap : Heap} {R S : Value → Value → Prop} {v w : Value}

/-- Whether two values match depends on how their contents are related only. -/
theorem Matches.imp (h : Matches heap R v w)
    (hRS : ∀ p q a b, v.ref? = some p → w.ref? = some q → a ∈ heap.contents p →
      b ∈ heap.contents q → R a b → S a b) : Matches heap S v w := by
  cases h with
  | scalar left right equal => exact .scalar left right equal
  | same container => exact .same container
  | list items =>
      have hzip := List.forall₂_iff_zip.mp items
      refine .list (List.forall₂_iff_zip.mpr ⟨hzip.1, fun {a b} hab => ?_⟩)
      obtain ⟨ha, hb⟩ := List.of_mem_zip hab
      exact hRS _ _ a b rfl rfl ha hb (hzip.2 hab)
  | record names values =>
      refine .record names fun name a b ha hb => ?_
      have ha' := List.mem_map_of_mem (f := Prod.snd) (Entries.mem_of_get? ha)
      have hb' := List.mem_map_of_mem (f := Prod.snd) (Entries.mem_of_get? hb)
      exact hRS _ _ a b rfl rfl ha' hb' (values name a b ha hb)

theorem Matches.mono (h : Matches heap R v w) (hRS : ∀ a b, R a b → S a b) :
    Matches heap S v w :=
  h.imp fun _ _ a b _ _ _ _ => hRS a b

/-! ## What is taken for granted -/

/-- Two values are alike if what `S` relates is taken for granted. -/
def Alike (heap : Heap) (S : Value → Value → Prop) (v w : Value) : Prop :=
  ∃ R : Value → Value → Prop,
    (∀ a b, R a b → Matches heap (fun x y => R x y ∨ S x y) a b) ∧ (R v w ∨ S v w)

/-- A relation with one more pair. -/
def Adding (S : Value → Value → Prop) (v w a b : Value) : Prop :=
  S a b ∨ a = v ∧ b = w

/-- Inside two values it may be taken for granted that they are alike themselves. -/
theorem alike_iff : Alike heap S v w ↔ S v w ∨ Matches heap (Alike heap (Adding S v w)) v w := by
  constructor
  · rintro ⟨R, steps, hR | hS⟩
    · refine .inr ((steps v w hR).mono fun a b hab => ⟨R, fun x y hxy => ?_, ?_⟩)
      · exact (steps x y hxy).mono fun _ _ h => h.imp_right .inl
      · exact hab.imp_right .inl
    · exact .inl hS
  · rintro (hS | hmatches)
    · exact ⟨fun _ _ => False, nofun, .inr hS⟩
    · -- All relations that serve inside, together with the pair itself, serve outside.
      let inside (a b : Value) : Prop := ∃ R : Value → Value → Prop,
        (∀ x y, R x y → Matches heap (fun x y => R x y ∨ Adding S v w x y) x y) ∧ R a b
      let outside (a b : Value) : Prop := inside a b ∨ a = v ∧ b = w
      have added {R : Value → Value → Prop} (hR : ∀ a b, R a b → inside a b) {a b : Value}
          (h : R a b ∨ Adding S v w a b) : outside a b ∨ S a b := by
        rcases h with h | h | h
        · exact .inl (.inl (hR a b h))
        · exact .inr h
        · exact .inl (.inr h)
      refine ⟨outside, ?_, .inl (.inr ⟨rfl, rfl⟩)⟩
      rintro a b (⟨R, steps, hR⟩ | ⟨rfl, rfl⟩)
      · exact (steps a b hR).mono fun _ _ => added fun x y hxy => ⟨R, steps, hxy⟩
      · refine hmatches.mono ?_
        rintro x y ⟨R, steps, hxy⟩
        exact added (fun a b hab => ⟨R, steps, hab⟩) hxy

theorem alike_nothing_iff : Alike heap (fun _ _ => False) v w ↔ Bisimilar heap v w := by
  constructor
  · rintro ⟨R, steps, hR | hnone⟩
    · exact ⟨R, fun a b hab => (steps a b hab).mono fun _ _ h => h.resolve_right id, hR⟩
    · exact hnone.elim
  · rintro ⟨R, steps, hR⟩
    exact ⟨R, fun a b hab => (steps a b hab).mono fun _ _ => .inl, .inl hR⟩

/-! ## What is being compared -/

/-- Two containers of one kind whose pair is in a list. -/
def Paired (seen : List (Ref × Ref)) (v w : Value) : Prop :=
  v.kind = w.kind ∧ ∃ p ∈ seen, v.ref? = some p.1 ∧ w.ref? = some p.2

theorem paired_nil : Paired [] = fun _ _ => False := by
  funext v w
  simp [Paired]

theorem eq_of_ref? {r : Ref} (hv : v.ref? = some r) (hw : w.ref? = some r) : v = w := by
  cases v <;> cases hv <;> cases w <;> cases hw <;> rfl

theorem exists_ref? (h : v.isScalar = false) : ∃ r, v.ref? = some r := by
  cases v with
  | list cell => exact ⟨_, rfl⟩
  | record cell => exact ⟨_, rfl⟩
  | _ => cases h

theorem not_isScalar_of_ref? {r : Ref} (h : v.ref? = some r) : v.isScalar = false := by
  cases v with
  | list cell => rfl
  | record cell => rfl
  | _ => cases h

/-- Going into two containers adds their pair. -/
theorem paired_cons {seen : List (Ref × Ref)} {p q : Ref} (hkind : v.kind = w.kind)
    (hv : v.ref? = some p) (hw : w.ref? = some q) :
    Paired ((p, q) :: seen) = Adding (Paired seen) v w := by
  funext a b
  refine propext ⟨?_, ?_⟩
  · rintro ⟨habkind, pair, hpair, ha, hb⟩
    rcases List.mem_cons.mp hpair with rfl | hpair
    · exact .inr ⟨eq_of_ref? ha hv, eq_of_ref? hb hw⟩
    · exact .inl ⟨habkind, pair, hpair, ha, hb⟩
  · rintro (⟨habkind, pair, hpair, ha, hb⟩ | ⟨rfl, rfl⟩)
    · exact ⟨habkind, pair, List.mem_cons_of_mem _ hpair, ha, hb⟩
    · exact ⟨hkind, (p, q), List.mem_cons_self, hv, hw⟩

/-! ## One step of the comparison -/

theorem isScalar_of_scalarEqual (h : scalarEqual v w = true) :
    v.isScalar = true ∧ w.isScalar = true := by
  cases v <;> cases w <;> first | exact ⟨rfl, rfl⟩ | cases h

/-- Values that are not both lists or both records match exactly if they are equal scalars. -/
theorem matches_iff_scalarEqual (h : ¬ (v.isScalar = false ∧ v.kind = w.kind)) :
    Matches heap R v w ↔ scalarEqual v w = true := by
  constructor
  · intro hmatches
    cases hmatches with
    | scalar left right equal => exact equal
    | same container => exact absurd ⟨container, rfl⟩ h
    | list items => exact absurd ⟨rfl, rfl⟩ h
    | record names values => exact absurd ⟨rfl, rfl⟩ h
  · intro hequal
    obtain ⟨left, right⟩ := isScalar_of_scalarEqual hequal
    exact .scalar left right hequal

theorem equalFuel_scalar (h : ¬ (v.isScalar = false ∧ v.kind = w.kind)) (fuel : Nat)
    (seen : List (Ref × Ref)) : equalFuel heap fuel seen v w = scalarEqual v w := by
  cases v <;> cases w <;> first | exact absurd ⟨rfl, rfl⟩ h | simp only [equalFuel]

theorem paired_list {seen : List (Ref × Ref)} {l r : Nat} :
    Paired seen (.list l) (.list r) ↔ (.list l, .list r) ∈ seen := by
  simp [Paired, ref?, kind]

theorem paired_record {seen : List (Ref × Ref)} {l r : Nat} :
    Paired seen (.record l) (.record r) ↔ (.record l, .record r) ∈ seen := by
  simp [Paired, ref?, kind]

theorem equalFuel_list (fuel : Nat) (seen : List (Ref × Ref)) (l r : Nat) :
    equalFuel heap (fuel + 1) seen (.list l) (.list r) = true ↔
      Paired seen (.list l) (.list r) ∨
        Matches heap (fun a b => equalFuel heap fuel ((.list l, .list r) :: seen) a b = true)
          (.list l) (.list r) := by
  have hrun : equalFuel heap (fuel + 1) seen (.list l) (.list r) = true ↔
      (l = r ∨ (.list l, .list r) ∈ seen) ∨
        List.Forall₂ (fun a b => equalFuel heap fuel ((.list l, .list r) :: seen) a b = true)
          (heap.items l) (heap.items r) := by
    rw [List.forall₂_iff_zip]
    simp [equalFuel]
  rw [hrun, paired_list]
  constructor
  · rintro ((rfl | hseen) | hitems)
    · exact .inr (.same rfl)
    · exact .inl hseen
    · exact .inr (.list hitems)
  · rintro (hseen | hmatches)
    · exact .inl (.inr hseen)
    · cases hmatches with
      | scalar left right equal => cases left
      | same container => exact .inl (.inl rfl)
      | list items => exact .inr items

/-- Records of one size have the same names if each name of one is a name of the other. -/
theorem names_iff_of_subset (distinct : heap.Distinct) {l r : Nat}
    (hlength : (heap.fields l).length = (heap.fields r).length)
    (hsubset : (heap.fields l).names ⊆ (heap.fields r).names) (name : String) :
    name ∈ (heap.fields l).names ↔ name ∈ (heap.fields r).names := by
  refine ⟨fun h => hsubset h, fun h => ?_⟩
  have hperm : (heap.fields l).names.Perm (heap.fields r).names := by
    refine ((distinct.names l).subperm hsubset).perm_of_length_le ?_
    rw [Entries.names, Entries.names, List.length_map, List.length_map]
    exact Nat.le_of_eq hlength.symm
  exact hperm.mem_iff.mpr h

/-- Comparing the properties of one record with those of another of its size finds exactly whether
the two match. -/
theorem fields_match_iff (distinct : heap.Distinct) (same : Value → Value → Bool) (l r : Nat) :
    ((heap.fields l).length = (heap.fields r).length ∧
      ∀ field ∈ heap.fields l, ∃ other, (heap.fields r).get? field.1 = some other ∧
        same field.2 other = true) ↔
    (∀ name, name ∈ (heap.fields l).names ↔ name ∈ (heap.fields r).names) ∧
      ∀ name v w, (heap.fields l).get? name = some v → (heap.fields r).get? name = some w →
        same v w = true := by
  constructor
  · rintro ⟨hlength, hfields⟩
    refine ⟨names_iff_of_subset distinct hlength fun name hname => ?_, fun name v w hv hw => ?_⟩
    · obtain ⟨field, hfield, rfl⟩ := List.mem_map.mp hname
      obtain ⟨other, hother, -⟩ := hfields field hfield
      exact Entries.mem_names_of_get? hother
    · obtain ⟨other, hother, hsame⟩ := hfields _ (Entries.mem_of_get? hv)
      cases hother.symm.trans hw
      exact hsame
  · rintro ⟨hnames, hvalues⟩
    have hperm : (heap.fields l).names.Perm (heap.fields r).names :=
      (List.perm_ext_iff_of_nodup (distinct.names l) (distinct.names r)).mpr hnames
    refine ⟨?_, fun field hfield => ?_⟩
    · simpa [Entries.names] using hperm.length_eq
    · have hname : field.1 ∈ (heap.fields r).names := (hnames _).mp (List.mem_map_of_mem hfield)
      obtain ⟨other, hother⟩ := Entries.exists_get?_of_mem_names hname
      exact ⟨other, hother, hvalues _ _ _ (Entries.get?_of_mem (distinct.names l) hfield) hother⟩

theorem equalFuel_record (distinct : heap.Distinct) (fuel : Nat) (seen : List (Ref × Ref))
    (l r : Nat) :
    equalFuel heap (fuel + 1) seen (.record l) (.record r) = true ↔
      Paired seen (.record l) (.record r) ∨
        Matches heap (fun a b => equalFuel heap fuel ((.record l, .record r) :: seen) a b = true)
          (.record l) (.record r) := by
  let inside := equalFuel heap fuel ((.record l, .record r) :: seen)
  have hrun : equalFuel heap (fuel + 1) seen (.record l) (.record r) = true ↔
      (l = r ∨ (.record l, .record r) ∈ seen) ∨
        (heap.fields l).length = (heap.fields r).length ∧
          ∀ field ∈ heap.fields l, ∃ other, (heap.fields r).get? field.1 = some other ∧
            inside field.2 other = true := by
    simp only [equalFuel, Bool.or_eq_true, Bool.and_eq_true, beq_iff_eq, List.contains_iff_mem,
      List.all_eq_true]
    refine or_congr_right (and_congr_right fun _ => forall₂_congr fun field _ => ?_)
    cases (heap.fields r).get? field.1 with
    | none => simp
    | some other => simp [inside]
  rw [hrun, paired_record, fields_match_iff distinct inside]
  constructor
  · rintro ((rfl | hseen) | ⟨hnames, hvalues⟩)
    · exact .inr (.same rfl)
    · exact .inl hseen
    · exact .inr (.record hnames hvalues)
  · rintro (hseen | hmatches)
    · exact .inl (.inr hseen)
    · cases hmatches with
      | scalar left right equal => cases left
      | same container => exact .inl (.inl rfl)
      | record names values => exact .inr ⟨names, values⟩

theorem equalFuel_container (distinct : heap.Distinct) {p q : Ref} (hkind : v.kind = w.kind)
    (hv : v.ref? = some p) (hw : w.ref? = some q) (fuel : Nat) (seen : List (Ref × Ref)) :
    equalFuel heap (fuel + 1) seen v w = true ↔
      Paired seen v w ∨
        Matches heap (fun a b => equalFuel heap fuel ((p, q) :: seen) a b = true) v w := by
  cases v with
  | list l =>
      cases w with
      | list r =>
          cases hv
          cases hw
          exact equalFuel_list fuel seen l r
      | _ => cases hkind
  | record l =>
      cases w with
      | record r =>
          cases hv
          cases hw
          exact equalFuel_record distinct fuel seen l r
      | _ => cases hkind
  | _ => cases hv

/-- With enough fuel, comparing two values tells whether they are alike, given what is being
compared around them. -/
theorem equalFuel_iff_alike (distinct : heap.Distinct) {fuel : Nat} {seen : List (Ref × Ref)}
    (walk : Walk (heap.refs ×ˢ heap.refs) seen fuel) (v w : Value) :
    equalFuel heap fuel seen v w = true ↔ Alike heap (Paired seen) v w := by
  induction fuel generalizing seen v w with
  | zero => exact walk.not_zero.elim
  | succ fuel ih =>
      rw [alike_iff]
      by_cases hcontainers : v.isScalar = false ∧ v.kind = w.kind
      · obtain ⟨hscalar, hkind⟩ := hcontainers
        obtain ⟨p, hv⟩ := exists_ref? hscalar
        obtain ⟨q, hw⟩ : ∃ q, w.ref? = some q := by
          refine exists_ref? ?_
          cases v <;> cases hv <;> cases w <;> cases hkind <;> rfl
        rw [equalFuel_container distinct hkind hv hw, ← paired_cons hkind hv hw]
        by_cases hseen : Paired seen v w
        · exact ⟨fun _ => .inl hseen, fun _ => .inl hseen⟩
        · have hnew : (p, q) ∉ seen := fun hmem => hseen ⟨hkind, (p, q), hmem, hv, hw⟩
          have inside (a b : Value) (ha : a ∈ heap.contents p) (hb : b ∈ heap.contents q) :
              equalFuel heap fuel ((p, q) :: seen) a b = true ↔
                Alike heap (Paired ((p, q) :: seen)) a b := by
            have hcells := List.mem_product.mpr
              ⟨Heap.mem_refs_of_mem_contents ha, Heap.mem_refs_of_mem_contents hb⟩
            exact ih (walk.enter hcells hnew) a b
          refine or_congr_right ⟨fun h => h.imp ?_, fun h => h.imp ?_⟩
          · intro p' q' a b hp' hq' ha hb
            cases hp'.symm.trans hv
            cases hq'.symm.trans hw
            exact (inside a b ha hb).mp
          · intro p' q' a b hp' hq' ha hb
            cases hp'.symm.trans hv
            cases hq'.symm.trans hw
            exact (inside a b ha hb).mpr
      · have hnone : ¬ Paired seen v w := by
          rintro ⟨hkind, p, -, hv, -⟩
          exact hcontainers ⟨not_isScalar_of_ref? hv, hkind⟩
        rw [equalFuel_scalar hcontainers, matches_iff_scalarEqual hcontainers, or_iff_right hnone]

/-! ## Equality -/

theorem isBisimulation_bisimilar : IsBisimulation heap (Bisimilar heap) := by
  rintro v w ⟨R, hR, hvw⟩
  exact (hR v w hvw).mono fun a b hab => ⟨R, hR, hab⟩

theorem bisimilar_iff_matches : Bisimilar heap v w ↔ Matches heap (Bisimilar heap) v w := by
  refine ⟨isBisimulation_bisimilar v w, fun h => ?_⟩
  refine ⟨Matches heap (Bisimilar heap), fun a b hab => ?_, h⟩
  exact hab.mono isBisimulation_bisimilar

theorem alikeTo_of_bisimilar (h : Bisimilar heap v w) (depth : Nat) : AlikeTo heap depth v w := by
  induction depth generalizing v w with
  | zero => trivial
  | succ depth ih => exact (isBisimulation_bisimilar v w h).mono fun _ _ => ih

/-- What is alike to every depth matches in parts that are alike to every depth. -/
theorem isBisimulation_alikeTo :
    IsBisimulation heap fun v w => ∀ depth, AlikeTo heap depth v w := by
  intro v w h
  have first : Matches heap (AlikeTo heap 0) v w := h 1
  cases first with
  | scalar left right equal => exact .scalar left right equal
  | same container => exact .same container
  | @list l r items =>
      by_cases hsame : l = r
      · subst hsame
        exact .same rfl
      · refine .list (List.forall₂_iff_zip.mpr ⟨items.length_eq, fun {a b} hab depth => ?_⟩)
        cases h (depth + 1) with
        | scalar left right equal => cases left
        | same container => exact absurd rfl hsame
        | list items => exact (List.forall₂_iff_zip.mp items).2 hab
  | @record l r names values =>
      by_cases hsame : l = r
      · subst hsame
        exact .same rfl
      · refine .record names fun name a b ha hb depth => ?_
        cases h (depth + 1) with
        | scalar left right equal => cases left
        | same container => exact absurd rfl hsame
        | record names values => exact values name a b ha hb

theorem bisimilar_iff_alikeTo : Bisimilar heap v w ↔ ∀ depth, AlikeTo heap depth v w :=
  ⟨alikeTo_of_bisimilar, fun h => ⟨_, isBisimulation_alikeTo, h⟩⟩

theorem walk_start {fuel : Nat} (h : heap.cellCount * heap.cellCount < fuel) :
    Walk (heap.refs ×ˢ heap.refs) [] fuel := by
  apply Walk.start
  rwa [List.length_product, Heap.length_refs]

theorem equal_iff_bisimilar (distinct : heap.Distinct) (v w : Value) :
    equal heap v w = true ↔ Bisimilar heap v w := by
  rw [equal, equalFuel_iff_alike distinct (walk_start (Nat.lt_succ_self _)), paired_nil,
    alike_nothing_iff]

/-- Comparing two values comes to an end, and they are equal exactly if some bisimulation relates
them. So they are equal if they unfold alike to every depth, be they cyclic or not, and what is
directly inside them counts only by what it is equal to, be it shared or copied. The heap is one on
which no record doubles a property name, as they all are that a session comes to. -/
theorem equality_is_bisimilarity (distinct : heap.Distinct) (v w : Value) :
    (∀ fuel, heap.cellCount * heap.cellCount < fuel →
      equalFuel heap fuel [] v w = equal heap v w) ∧
    (equal heap v w = true ↔ ∃ R, IsBisimulation heap R ∧ R v w) ∧
    (equal heap v w = true ↔ ∀ depth, AlikeTo heap depth v w) ∧
    (equal heap v w = true ↔ Matches heap (fun a b => equal heap a b = true) v w) := by
  have hbisimilar := equal_iff_bisimilar distinct
  have hrelation : (fun a b => equal heap a b = true) = Bisimilar heap := by
    funext a b
    exact propext (hbisimilar a b)
  refine ⟨fun fuel hfuel => ?_, hbisimilar v w, ?_, ?_⟩
  · exact equalFuel_eq (walk_start hfuel) (walk_start (Nat.lt_succ_self _)) v w
  · rw [hbisimilar, bisimilar_iff_alikeTo]
  · rw [hbisimilar, hrelation, bisimilar_iff_matches]

/-- Two rings of a list and a record, the second one with its properties in another order and twice
as long, and a third one that differs in its second record. -/
def ringHeap : Heap where
  lists := #[[.record 0], [.record 1], [.record 2], [.record 3], [.record 4]]
  records := #[[("next", .list 0), ("room", .str "inn")], [("room", .str "inn"), ("next", .list 2)],
    [("next", .list 1), ("room", .str "inn")], [("next", .list 4), ("room", .str "inn")],
    [("next", .list 3), ("room", .str "mill")]]

/-- What the first two rings have in common. -/
inductive RingsAlike : Value → Value → Prop
  | lists : RingsAlike (.list 0) (.list 1)
  | records : RingsAlike (.record 0) (.record 1)
  | laterLists : RingsAlike (.list 0) (.list 2)
  | laterRecords : RingsAlike (.record 0) (.record 2)
  | rooms : RingsAlike (.str "inn") (.str "inn")

theorem isBisimulation_ringsAlike : IsBisimulation ringHeap RingsAlike := by
  have matched {r next : Nat} (hnames : (ringHeap.fields r).names.Perm ["next", "room"])
      (hnext : (ringHeap.fields r).get? "next" = some (.list next))
      (hroom : (ringHeap.fields r).get? "room" = some (.str "inn"))
      (halike : RingsAlike (.list 0) (.list next)) :
      Matches ringHeap RingsAlike (.record 0) (.record r) := by
    refine .record (fun name => hnames.mem_iff.symm) fun name v w hv hw => ?_
    have hfield : (name, v) ∈ [("next", Value.list 0), ("room", .str "inn")] :=
      Entries.mem_of_get? hv
    simp only [List.mem_cons, Prod.mk.injEq, List.not_mem_nil, or_false] at hfield
    rcases hfield with ⟨rfl, rfl⟩ | ⟨rfl, rfl⟩
    · cases hnext.symm.trans hw
      exact halike
    · cases hroom.symm.trans hw
      exact .rooms
  intro v w h
  cases h with
  | lists => exact .list (.cons .records .nil)
  | records => exact matched (.swap _ _ _) rfl rfl .laterLists
  | laterLists => exact .list (.cons .laterRecords .nil)
  | laterRecords => exact matched (.refl _) rfl rfl .lists
  | rooms => exact .scalar rfl rfl rfl

/-- The rings of one kind of room are equal, and the one with a mill is not. -/
theorem equality_is_bisimilarity_of_rings :
    ringHeap.Distinct ∧ equal ringHeap (.list 0) (.list 1) = true ∧
      equal ringHeap (.list 0) (.list 3) = false := by
  have distinct : ringHeap.Distinct := by decide
  obtain ⟨-, hequal, -, -⟩ := equality_is_bisimilarity distinct (.list 0) (.list 1)
  refine ⟨distinct, hequal.mpr ⟨RingsAlike, isBisimulation_ringsAlike, .lists⟩, ?_⟩
  decide +kernel

end Value

end Parlance
