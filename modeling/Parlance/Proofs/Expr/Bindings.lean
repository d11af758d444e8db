import Mathlib.Data.List.Nodup
import Parlance.Expr.Evaluate

/-!
# What evaluation sees of the names in scope

Names are looked up one by one, or walked in canonical order. Either way only what they are bound to
is seen, and not in which order they were bound: scopes that agree on every name evaluate every text
alike.
-/

namespace Parlance

namespace NameMap

/-- Two maps agree if they map every name to the same. -/
def Agrees (s t : NameMap α) : Prop :=
  ∀ name, s.get? name = t.get? name

variable {s t : NameMap α}

theorem Agrees.set (h : s.Agrees t) (name : String) (value : α) :
    (s.set name value).Agrees (t.set name value) := by
  intro other
  rw [get?_set, get?_set, h other]

theorem Agrees.erase (h : s.Agrees t) (name : String) : (s.erase name).Agrees (t.erase name) := by
  intro other
  rw [get?_erase, get?_erase, h other]

theorem Agrees.contains_eq (h : s.Agrees t) (name : String) : s.contains name = t.contains name := by
  rw [contains, contains, h name]

theorem nodup_entries (map : NameMap α) : map.entries.Nodup := by
  refine map.ordered.imp fun {x y} hlt heq => ?_
  rw [heq, precedes_irrefl] at hlt
  cases hlt

/-- Maps that agree have the same entries, in the same order. -/
theorem Agrees.entries_eq (h : s.Agrees t) : s.entries = t.entries := by
  have hperm : s.entries.Perm t.entries := by
    refine (List.perm_ext_iff_of_nodup s.nodup_entries t.nodup_entries).mpr fun entry => ?_
    rw [mem_entries_iff, mem_entries_iff, h entry.1]
  refine hperm.eq_of_pairwise (fun x y _ _ hxy hyx => ?_) s.ordered t.ordered
  have hself := precedes_trans hxy hyx
  rw [precedes_irrefl] at hself
  cases hself

theorem Agrees.names_eq (h : s.Agrees t) : s.names = t.names := by
  rw [names, names, h.entries_eq]

end NameMap

namespace Evaluate

variable {s t : Bindings}

theorem singleName?_of_agrees (h : s.Agrees t) (ls : List Lexeme) :
    singleName? s ls = singleName? t ls := by
  unfold singleName?
  simp only [h.contains_eq]

theorem lookup_of_agrees (h : s.Agrees t) (name : String) : lookup s name = lookup t name := by
  rw [lookup, lookup, h name]

theorem records_of_agrees (h : s.Agrees t) (heap : Heap) :
    Phrase.records heap s = Phrase.records heap t := by
  rw [Phrase.records, Phrase.records, h.entries_eq]

theorem resolved_of_agrees (h : s.Agrees t) (records : List (String × Entries Value))
    (ls : List Lexeme) : resolved s records ls = resolved t records ls := by
  simp only [resolved, Phrase.replaceVariables, h.entries_eq]

theorem lexedWith_of_agrees (h : s.Agrees t) (evaluateIndex : List Char → Eval Value) (text : List Char)
    (ls : List Lexeme) : lexedWith s evaluateIndex text ls = lexedWith t evaluateIndex text ls := by
  simp only [lexedWith, singleName?_of_agrees h, lookup_of_agrees h, records_of_agrees h,
    resolved_of_agrees h]

theorem textFuel_of_agrees (h : s.Agrees t) (fuel : Nat) (source : List Char) :
    textFuel s fuel source = textFuel t fuel source := by
  induction fuel generalizing source with
  | zero => rfl
  | succ fuel ih =>
      have hindex : textFuel s fuel = textFuel t fuel := funext ih
      simp only [textFuel, textWith, lexedWith_of_agrees h, hindex]

/-- Scopes that agree give every text the same value, or the same failure. -/
theorem text_of_agrees (h : s.Agrees t) (source : String) : text s source = text t source :=
  textFuel_of_agrees h _ _

end Evaluate

end Parlance
