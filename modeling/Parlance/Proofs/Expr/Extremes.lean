import Parlance.Expr.Builtin
import Parlance.Proofs.Value.Growth
import Parlance.Proofs.Value.Ordering

/-!
# The least and the greatest of some values

The least and the greatest value are searched from left to right, and each candidate is compared with
the best one so far only. On plain values this is enough: the order passes through the best ones, so
the last of them has an order to all candidates, those in front of it lie strictly behind it, and no
other one lies beyond it.
-/

namespace Parlance

namespace Tree

variable {a b c : Tree} {o : Ordering}

theorem order_swap_of_eq (h : order a b = some o) : order b a = some o.swap := by
  rw [order_swap a b, h]
  rfl

/-- Two differences in the same direction add up to one. -/
theorem order_trans_of_ne_eq (ho : o ≠ .eq) (hab : order a b = some o) (hbc : order b c = some o) :
    order a c = some o := by
  cases o with
  | lt => exact order_trans hab hbc
  | eq => exact absurd rfl ho
  | gt => exact order_swap_of_eq (order_trans (order_swap_of_eq hbc) (order_swap_of_eq hab))

theorem swap_ne (ho : o ≠ .eq) : o.swap ≠ o := by
  cases o with
  | eq => exact absurd rfl ho
  | _ => exact nofun

/-- What does not lie beyond `b` lies strictly behind everything that does. -/
theorem order_of_beyond {wanted : Ordering} (hwanted : wanted ≠ .eq) (hab : order a b = some o)
    (ho : o ≠ wanted) (hcb : order c b = some wanted) : order a c = some wanted.swap := by
  have hbc := order_swap_of_eq hcb
  by_cases heq : o = .eq
  · obtain rfl : a = b := (order_eq_iff hab).mp heq
    exact hbc
  · obtain rfl : o = wanted.swap := by
      cases o <;> cases wanted <;> first | rfl | exact absurd rfl ‹_›
    exact order_trans_of_ne_eq heq hab hbc

end Tree

namespace Builtin

open Value

/-- A function that looks for an extreme, with the sign and the order that it looks for. -/
inductive TakesExtreme : Builtin → String → Ordering → Prop
  | min : TakesExtreme .min "<" .lt
  | max : TakesExtreme .max ">" .gt

theorem TakesExtreme.ne_eq {b : Builtin} {symbol : String} {wanted : Ordering}
    (h : TakesExtreme b symbol wanted) : wanted ≠ .eq := by
  cases h <;> exact nofun

/-- What an extreme of some arguments is taken of: the elements that a single list has, the characters
of a single text, each as a text of its own, and otherwise the arguments themselves. -/
inductive Offers (heap : Heap) : List Value → List Value → Prop
  | list (cell : Nat) : Offers heap [.list cell] (heap.items cell)
  | text (s : String) : Offers heap [.str s] (s.toList.map fun c => .str (String.ofList [c]))
  | single {v : Value} (noList : ∀ cell, v ≠ .list cell) (noText : ∀ s, v ≠ .str s) :
      Offers heap [v] [v]
  | several {args : List Value} (h : args.length ≠ 1) : Offers heap args args

theorem offers_iff {heap : Heap} {args values : List Value} :
    Offers heap args values ↔ values = candidates heap args := by
  constructor
  · rintro (cell | s | ⟨noList, noText⟩ | h)
    · rfl
    · rfl
    · unfold candidates
      split
      · next cell heq => exact absurd (List.cons.inj heq).1 (noList cell)
      · next s heq => exact absurd (List.cons.inj heq).1 (noText s)
      · rfl
    · unfold candidates
      split
      · exact absurd rfl h
      · exact absurd rfl h
      · rfl
  · rintro rfl
    unfold candidates
    split
    · exact .list _
    · exact .text _
    · next noList noText =>
      by_cases hlength : args.length = 1
      · obtain ⟨v, rfl⟩ := List.length_eq_one_iff.mp hlength
        exact .single (fun cell heq => noList cell (by rw [heq])) fun s heq => noText s (by rw [heq])
      · exact .several hlength

/-- The value at place `k` is the first extreme: it has an order to all others, none of them lies
beyond it in the wanted direction, and those in front of it lie strictly behind it. -/
structure FirstExtreme (heap : Heap) (symbol : String) (wanted : Ordering) (values : List Value)
    (k : Nat) (m : Value) : Prop where
  here : values[k]? = some m
  others {i : Nat} {c : Value} (hi : i ≠ k) (hc : values[i]? = some c) :
    ∃ o, order heap symbol c m = .ok (some o) ∧ o ≠ wanted
  before {i : Nat} {c : Value} (hi : i < k) (hc : values[i]? = some c) :
    order heap symbol c m = .ok (some wanted.swap)

namespace FirstExtreme

variable {heap : Heap} {symbol : String} {wanted o : Ordering} {seen : List Value} {k : Nat}
  {best c : Value}

theorem single (best : Value) : FirstExtreme heap symbol wanted [best] 0 best where
  here := rfl
  others hi hc := by
    obtain ⟨hlt, -⟩ := List.getElem?_eq_some_iff.mp hc
    rw [List.length_singleton] at hlt
    omega
  before hi _ := absurd hi (Nat.not_lt_zero _)

theorem getElem?_concat {i : Nat} {v : Value} (h : (seen ++ [c])[i]? = some v) :
    seen[i]? = some v ∨ i = seen.length ∧ v = c := by
  rw [List.getElem?_append] at h
  split at h
  · exact .inl h
  · next hge =>
    obtain ⟨hlt, hv⟩ := List.getElem?_eq_some_iff.mp h
    rw [List.length_singleton] at hlt
    exact .inr ⟨by omega, by simpa using hv.symm⟩

/-- A candidate that is not beyond the best one leaves it the best. -/
theorem keep (h : FirstExtreme heap symbol wanted seen k best)
    (horder : order heap symbol c best = .ok (some o)) (ho : o ≠ wanted) :
    FirstExtreme heap symbol wanted (seen ++ [c]) k best where
  here := by
    obtain ⟨hlt, -⟩ := List.getElem?_eq_some_iff.mp h.here
    rw [List.getElem?_append_left hlt, h.here]
  others hi hc := by
    rcases getElem?_concat hc with hc | ⟨-, rfl⟩
    · exact h.others hi hc
    · exact ⟨o, horder, ho⟩
  before hi hc := by
    obtain ⟨hlt, -⟩ := List.getElem?_eq_some_iff.mp h.here
    rw [List.getElem?_append_left (Nat.lt_trans hi hlt)] at hc
    exact h.before hi hc

/-- A candidate beyond the best one is beyond everything so far. -/
theorem replace (hwanted : wanted ≠ .eq) (h : FirstExtreme heap symbol wanted seen k best)
    (plain : ∀ v ∈ seen, Plain heap v) (hc : Plain heap c)
    (horder : order heap symbol c best = .ok (some wanted)) :
    FirstExtreme heap symbol wanted (seen ++ [c]) seen.length c := by
  obtain ⟨t, ht⟩ := (plain best (List.mem_of_getElem? h.here)).exists_tree
  obtain ⟨u, hu⟩ := hc.exists_tree
  obtain ⟨_, ⟨⟩, hut⟩ := (order_ok_iff symbol hu ht).mp horder
  have behind {i : Nat} {v : Value} (hv : seen[i]? = some v) :
      order heap symbol v c = .ok (some wanted.swap) := by
    by_cases hi : i = k
    · subst hi
      obtain rfl : best = v := Option.some.inj (h.here.symm.trans hv)
      exact (order_ok_iff symbol ht hu).mpr ⟨_, rfl, Tree.order_swap_of_eq hut⟩
    · obtain ⟨s, hs⟩ := (plain v (List.mem_of_getElem? hv)).exists_tree
      obtain ⟨o, hvbest, ho⟩ := h.others hi hv
      obtain ⟨_, ⟨⟩, hst⟩ := (order_ok_iff symbol hs ht).mp hvbest
      exact (order_ok_iff symbol hs hu).mpr ⟨_, rfl, Tree.order_of_beyond hwanted hst ho hut⟩
  refine ⟨List.getElem?_concat_length, fun hi hv => ?_, fun hi hv => ?_⟩
  · rcases getElem?_concat hv with hv | ⟨heq, -⟩
    · exact ⟨_, behind hv, Tree.swap_ne hwanted⟩
    · exact absurd heq hi
  · rcases getElem?_concat hv with hv | ⟨heq, -⟩
    · exact behind hv
    · omega

end FirstExtreme

/-- The search goes on with the first extreme of the candidates so far. -/
theorem firstExtreme_of_extremeFrom {heap : Heap} {symbol : String} {wanted : Ordering}
    (hwanted : wanted ≠ .eq) {seen rest : List Value} {k : Nat} {best m : Value}
    (h : FirstExtreme heap symbol wanted seen k best) (plain : ∀ v ∈ seen ++ rest, Plain heap v)
    (hm : extremeFrom heap symbol wanted best rest = .ok m) :
    ∃ k, FirstExtreme heap symbol wanted (seen ++ rest) k m := by
  induction rest generalizing seen k best with
  | nil =>
      cases hm
      exact ⟨k, by rwa [List.append_nil]⟩
  | cons c rest ih =>
      have hseen : ∀ v ∈ seen, Plain heap v := fun v hv => plain v (List.mem_append_left _ hv)
      have hc : Plain heap c := plain c (by simp)
      have hbest := hseen best (List.mem_of_getElem? h.here)
      obtain ⟨t, ht⟩ := hbest.exists_tree
      obtain ⟨u, hu⟩ := hc.exists_tree
      rw [List.append_cons] at plain ⊢
      rw [extremeFrom] at hm
      cases horder : order heap symbol c best with
      | error e =>
          rw [horder] at hm
          cases hm
      | ok answer =>
          obtain ⟨o, rfl, -⟩ := (order_ok_iff symbol hu ht).mp horder
          rw [horder] at hm
          change extremeFrom heap symbol wanted
            (if (some o == some wanted) = true then c else best) rest = .ok m at hm
          by_cases ho : o = wanted
          · subst ho
            rw [if_pos (beq_self_eq_true _)] at hm
            exact ih (h.replace hwanted hseen hc horder) plain hm
          · rw [if_neg (by simpa using ho)] at hm
            exact ih (h.keep horder ho) plain hm

/-- The search fails only where a candidate has no order to one in front of it. -/
theorem not_ordered_of_extremeFrom {heap : Heap} {symbol : String} {wanted : Ordering}
    {seen rest : List Value} {best : Value} {e : Error} (hbest : best ∈ seen)
    (he : extremeFrom heap symbol wanted best rest = .error e) :
    ∃ front c back, seen ++ rest = front ++ c :: back ∧
      ∃ d ∈ front, order heap symbol c d = .error e := by
  induction rest generalizing seen best with
  | nil => cases he
  | cons c rest ih =>
      rw [extremeFrom] at he
      cases horder : order heap symbol c best with
      | error e' =>
          rw [horder] at he
          cases he
          exact ⟨seen, c, rest, rfl, best, hbest, horder⟩
      | ok answer =>
          rw [horder] at he
          rw [List.append_cons]
          refine ih ?_ he
          split
          · exact List.mem_append_right seen List.mem_cons_self
          · exact List.mem_append_left _ hbest

theorem call_extreme {b : Builtin} {symbol : String} {wanted : Ordering}
    (takes : TakesExtreme b symbol wanted) (args : List Value) (store : Store) :
    b.call args store = (callExtreme b symbol wanted store.heap args, store) := by
  cases takes <;> rfl

theorem callExtreme_nil {heap : Heap} {args : List Value} (h : candidates heap args = [])
    (b : Builtin) (symbol : String) (wanted : Ordering) :
    callExtreme b symbol wanted heap args = .error (.emptySequence b.name) := by
  rw [callExtreme, h]

/-- The least or greatest of plain values is the first extreme of them, and taking it changes
nothing: of the elements of a list, of the characters of a text, or of the arguments. It fails only
if two of the values have no order, or if there are none: where a list or a text is empty. -/
theorem extremes_come_first {b : Builtin} {symbol : String} {wanted : Ordering}
    (takes : TakesExtreme b symbol wanted) (store : Store) :
    (∀ args values m store', Offers store.heap args values → (∀ v ∈ values, Plain store.heap v) →
        b.call args store = (.ok m, store') → store' = store ∧
          ∃ k, FirstExtreme store.heap symbol wanted values k m) ∧
      (∀ args values e store', Offers store.heap args values → values ≠ [] →
        b.call args store = (.error e, store') → store' = store ∧
          ∃ front c back, values = front ++ c :: back ∧
            ∃ d ∈ front, order store.heap symbol c d = .error e) ∧
      (∀ cell, store.heap.items cell = [] →
        b.call [.list cell] store = (.error (.emptySequence b.name), store)) ∧
      b.call [.str ""] store = (.error (.emptySequence b.name), store) ∧
      (Error.emptySequence b.name).errorClass = .value := by
  refine ⟨fun args values m store' offers plain h => ?_,
    fun args values e store' offers hsome h => ?_, fun cell hempty => ?_, ?_, rfl⟩
  · obtain rfl := offers_iff.mp offers
    rw [call_extreme takes] at h
    obtain ⟨hm, rfl⟩ := Prod.mk.inj h
    refine ⟨rfl, ?_⟩
    unfold callExtreme at hm
    split at hm
    · cases hm
    · next first rest hcandidates =>
      rw [hcandidates] at plain ⊢
      exact firstExtreme_of_extremeFrom takes.ne_eq (.single first) plain hm
  · obtain rfl := offers_iff.mp offers
    rw [call_extreme takes] at h
    obtain ⟨he, rfl⟩ := Prod.mk.inj h
    refine ⟨rfl, ?_⟩
    unfold callExtreme at he
    split at he
    · next hnone => exact absurd hnone hsome
    · next first rest hcandidates =>
      have hfirst : first ∈ [first] := List.mem_cons_self
      rw [hcandidates]
      exact not_ordered_of_extremeFrom hfirst he
  · rw [call_extreme takes, callExtreme_nil (by exact hempty)]
  · rw [call_extreme takes, callExtreme_nil rfl]

/-- A list of `[2, "b"]`, `[1, "z"]` and a second `[1, "z"]`. -/
def pairsStore : Store where
  heap :=
    { lists := #[[.int 2, .str "b"], [.int 1, .str "z"], [.int 1, .str "z"],
        [.list 0, .list 1, .list 2]] }

/-- The least element of the list is the first one of the equal lists, and the greatest character of
a text stands in the middle of it. -/
theorem extremes_come_first_of_equal_lists :
    call .min [.list 3] pairsStore = (.ok (.list 1), pairsStore) ∧
      (∃ k, FirstExtreme pairsStore.heap "<" .lt [.list 0, .list 1, .list 2] k (.list 1)) ∧
      call .max [.str "aéb"] pairsStore = (.ok (.str "é"), pairsStore) ∧
      ∃ k, FirstExtreme pairsStore.heap ">" .gt [.str "a", .str "é", .str "b"] k (.str "é") := by
  have pair {cell : Nat} {i : Int64} {s : String}
      (h : pairsStore.heap.items cell = [.int i, .str s]) :
      Plain pairsStore.heap (.list cell) := by
    refine .list ?_
    rw [h]
    exact List.forall_mem_cons.mpr ⟨.int i, List.forall_mem_cons.mpr ⟨.str s, nofun⟩⟩
  have lists : ∀ v ∈ [Value.list 0, .list 1, .list 2], Plain pairsStore.heap v := by
    simp only [List.forall_mem_cons]
    exact ⟨pair rfl, pair rfl, pair rfl, nofun⟩
  have texts : ∀ v ∈ [Value.str "a", .str "é", .str "b"], Plain pairsStore.heap v := by
    simp only [List.forall_mem_cons]
    exact ⟨.str _, .str _, .str _, nofun⟩
  have least : call .min [.list 3] pairsStore = (.ok (.list 1), pairsStore) := rfl
  have greatest : call .max [.str "aéb"] pairsStore = (.ok (.str "é"), pairsStore) := rfl
  exact ⟨least, ((extremes_come_first .min pairsStore).1 _ _ _ _ (.list 3) lists least).2, greatest,
    ((extremes_come_first .max pairsStore).1 _ _ _ _ (.text "aéb") texts greatest).2⟩

end Builtin

end Parlance
