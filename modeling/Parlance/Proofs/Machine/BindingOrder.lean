import Parlance.Proofs.Machine.Numbering

/-!
# The order of bindings

A scope remembers in which order its names were bound, but nothing that is run can tell: names are
looked up by themselves, and walked in an order that depends on the names alone. So scopes that bind
the same names to the same values are exchangeable, however they came about.
-/

namespace Parlance

instance : Bindings.Congruence NameMap.Agrees where
  agrees h := h
  set := NameMap.Agrees.set
  erase := NameMap.Agrees.erase

theorem NameMap.mapValues_id (map : NameMap α) : map.mapValues id = map := by
  obtain ⟨held, distinct⟩ := map
  simp [mapValues]

namespace Machine

theorem renumber_id (m : Machine) : m.renumber id = m := by
  have hfunction : Function.renumber id = id := by
    funext function
    rw [Function.renumber, Block.renumber_id]
    rfl
  rw [renumber, hfunction, NameMap.mapValues_id]

/-- Machines with scopes that agree are alike. -/
theorem alike_of_agrees {s t : Bindings} (h : s.Agrees t) (m : Machine) :
    Alike NameMap.Agrees id { m with vars := s } { m with vars := t } := by
  have hrecast : { m with vars := t } = Machine.recast id t { m with vars := s } := by
    rw [recast, renumber_id]
  rw [hrecast]
  exact .mk h

end Machine

namespace Exec

/-- Scopes that bind the same names to the same values are exchangeable: their names are walked in
one order, every text evaluates alike, and every block runs alike and leaves machines that differ in
scopes only, which bind the same names to the same values again. -/
theorem binding_order_is_irrelevant {s t : Bindings} (h : ∀ name, s.get? name = t.get? name) :
    s.names = t.names ∧
      (∀ source store, Evaluate.text s source store = Evaluate.text t source store) ∧
      ∀ (b : Block) (m : Machine), ∃ outcome last vars,
        runBlock b { m with vars := s } = (outcome, last) ∧
          runBlock b { m with vars := t } = (outcome, { last with vars }) ∧
          ∀ name, last.vars.get? name = vars.get? name := by
  refine ⟨NameMap.Agrees.names_eq h, fun source store => ?_, fun b m => ?_⟩
  · rw [Evaluate.text_of_agrees h]
  · have hrun := Matches.runBlock b _ _ (Machine.alike_of_agrees h m)
    rw [Block.renumber_id] at hrun
    generalize runBlock b { m with vars := s } = ended,
      runBlock b { m with vars := t } = ended' at hrun
    obtain ⟨outcome, @⟨vars, related⟩⟩ := hrun
    refine ⟨outcome, _, vars, rfl, ?_, related⟩
    rw [Machine.recast, Machine.renumber_id]

/-- Two names as long as each other overlap in a text. The one bound last is the first of one scope
and the second of the other, and both say that what is left over in front is not defined. -/
theorem binding_order_is_irrelevant_for_overlapping_names :
    let s : Bindings := NameMap.ofList [("the cat", .str "Tom"), ("cat hat", .str "fez")]
    let t : Bindings := ((NameMap.ofList [("hat", .int 3), ("cat hat", .str "fez")]).erase
      "hat").set "the cat" (.str "Tom")
    let b := Block.ofProgram "show the cat\nshow the cat hat"
    let m : Machine := {}
    s.held.map Prod.fst = ["cat hat", "the cat"] ∧ t.held.map Prod.fst = ["the cat", "cat hat"] ∧
      s.names = t.names ∧ (runBlock b { m with vars := t }).2.console.printed =
        "Tom\nError: Variable 'the' is not defined\n" := by
  intro s t b m
  have hagree : ∀ name, s.get? name = t.get? name := by
    intro name
    have hempty : (NameMap.empty : Bindings).get? name = none := rfl
    simp only [s, t, NameMap.ofList, List.foldl_cons, List.foldl_nil, NameMap.get?_set,
      NameMap.get?_erase, hempty]
    grind
  have hprinted : (runBlock b { m with vars := s }).2.console.printed =
      "Tom\nError: Variable 'the' is not defined\n" := by decide +kernel
  obtain ⟨hnames, -, hrun⟩ := binding_order_is_irrelevant hagree
  obtain ⟨outcome, last, vars, hs, ht, -⟩ := hrun b m
  have hlast := (congrArg (fun ended => ended.2.console.printed) hs).symm.trans hprinted
  refine ⟨by decide +kernel, by decide +kernel, hnames, ?_⟩
  exact (congrArg (fun ended => ended.2.console.printed) ht).trans hlast

end Exec

end Parlance
