import Parlance.Expr.Phrase
import Parlance.Proofs.Expr.Leaves
import Parlance.Proofs.Value.Copy

/-!
# Resolving names and reading trees

Resolving the names in a list of tokens puts values in their places, and a value is a leaf as a name
is. So tokens can be read before their names are resolved exactly if they can be read afterwards,
and the trees differ in the leaves that were bound names only. No value, negative or not, regroups
the operators around it.
-/

namespace Parlance

open Eval

/-! ## Tokens -/

/-- A token has been resolved: a bound name has become a copy of its value, and everything else is
what it was. -/
inductive Token.Resolved (lookup : String → Option Value) (old new : Heap) : Token → Token → Prop
  | bound {n : String} {v copy : Value} (h : lookup n = some v) (hcopy : v.Copied old new copy) :
      Resolved lookup old new (.name n) (.value copy)
  | free {t : Token} (h : ∀ n, t = .name n → lookup n = none) : Resolved lookup old new t t

theorem Token.Resolved.grow {lookup : String → Option Value} {old new new' : Heap} {t t' : Token}
    (h : Resolved lookup old new t t') (ext : new.Extends new') :
    Resolved lookup old new' t t' := by
  cases h with
  | bound h hcopy => exact .bound h (hcopy.grow ext)
  | free h => exact .free h

/-- Resolving one name and then others resolves them all: what was put in is not a name. -/
theorem Token.Resolved.trans {lookup : String → Option Value} {old new : Heap} {n : String}
    {v : Value} {t t' t'' : Token}
    (first : Resolved (fun m => if m = n then some v else none) old new t t')
    (others : Resolved lookup old new t' t'') :
    Resolved (fun m => if m = n then some v else lookup m) old new t t'' := by
  cases first with
  | @bound m w copy h hcopy =>
      cases others with
      | free _ =>
          by_cases hm : m = n
          · rw [if_pos hm] at h
            exact .bound (by rw [if_pos hm, h]) hcopy
          · rw [if_neg hm] at h
            cases h
  | free hfree =>
      have hne (m : String) (ht : t = .name m) : m ≠ n := by
        intro hm
        have hnone := hfree m ht
        rw [if_pos hm] at hnone
        cases hnone
      cases others with
      | @bound m w copy h hcopy => exact .bound (by rw [if_neg (hne m rfl), h]) hcopy
      | free h => exact .free fun m ht => by rw [if_neg (hne m ht), h m ht]

theorem forall₂_comp {R S T : Token → Token → Prop} {ts us vs : List Token}
    (h : ∀ {a b c}, R a b → S b c → T a c) (hR : List.Forall₂ R ts us) (hS : List.Forall₂ S us vs) :
    List.Forall₂ T ts vs := by
  induction hR generalizing vs with
  | nil =>
      cases hS
      exact .nil
  | cons hab _ ih =>
      cases hS with
      | cons hbc hS => exact .cons (h hab hbc) (ih hS)

theorem Keyword.scan_spelling (k : Keyword) :
    Token.scan k.spelling.toList = .ok [.keyword k] := by
  cases k <;> rfl

/-- A name that is a single word is not a reserved one. -/
theorem Token.fits_name {n : String} (hn : Token.scan n.toList = .ok [.name n]) (t : Token) :
    t.fits (.name n) = true ↔ t = .name n := by
  constructor
  · intro h
    cases t with
    | name m =>
        have hm : m = n := eq_of_beq h
        rw [hm]
    | keyword k =>
        have hk : k.spelling = n := eq_of_beq h
        rw [← hk, Keyword.scan_spelling] at hn
        cases hn
    | _ => cases h
  · rintro rfl
    exact beq_self_eq_true n

namespace Phrase

variable {old base : Heap}

theorem ofText?_name {n : String} (hn : Token.scan n.toList = .ok [.name n]) :
    ofText? n = some [.name n] := by
  simp [ofText?, hn, Token.isText]

/-- What a variable is replaced by: a copy of its value. -/
theorem variableToken_gives (ext : old.Extends base) {v : Value} (ends : old.Ends v)
    (hrecord : ∀ cell, v ≠ .record cell) :
    Gives base (variableToken v) fun now t => ∃ copy, t = .value copy ∧ v.Copied old now copy := by
  cases v with
  | list cell =>
      refine Gives.bind ((Value.detached_copies ends).mono ext fun _ _ _ h => h)
        fun heap copy _ hcopy => ?_
      exact .pure fun heap' hheap' => ⟨copy, rfl, hcopy.grow hheap'⟩
  | record cell => exact absurd rfl (hrecord cell)
  | _ => exact .pure fun heap _ => ⟨_, rfl, .scalar rfl⟩

/-- Replacing a phrase of one word goes through the tokens one by one. -/
theorem replaceFrom_gives {n : String} (hn : Token.scan n.toList = .ok [.name n])
    (ext : old.Extends base) {v : Value} (ends : old.Ends v) (hrecord : ∀ cell, v ≠ .record cell)
    (ts : List Token) :
    Gives base (replaceFrom [.name n] (variableToken v) 0 ts) fun now ts' =>
      List.Forall₂ (Token.Resolved (fun m => if m = n then some v else none) old now) ts ts' := by
  induction ts generalizing base with
  | nil => exact .pure fun heap _ => .nil
  | cons t ts ih =>
      simp only [replaceFrom, startsWith, Bool.and_true]
      by_cases ht : t = .name n
      · subst ht
        rw [if_pos ((Token.fits_name hn _).mpr rfl)]
        refine (variableToken_gives ext ends hrecord).bind fun heap t' hbase ht' => ?_
        obtain ⟨copy, rfl, hcopy⟩ := ht'
        refine (ih (ext.trans hbase)).bind fun heap' ts' hheap hts' => ?_
        refine .pure fun heap'' hheap' => .cons (.bound (if_pos rfl) ?_) ?_
        · exact hcopy.grow (hheap.trans hheap')
        · exact hts'.imp fun _ _ h => h.grow hheap'
      · rw [if_neg fun h => ht ((Token.fits_name hn t).mp h)]
        refine (ih ext).bind fun heap ts' _ hts' => ?_
        refine .pure fun heap' hheap => .cons (.free ?_) ?_
        · rintro m rfl
          exact if_neg fun hm => ht (by rw [hm])
        · exact hts'.imp fun _ _ h => h.grow hheap

/-- Resolving the names of some entries, one after another. -/
theorem replaceAll_gives {entries : List (String × Value)}
    (identifiers : ∀ entry ∈ entries, Token.scan entry.1.toList = .ok [.name entry.1])
    (ends : ∀ entry ∈ entries, old.Ends entry.2)
    (hrecord : ∀ entry ∈ entries, ∀ cell, entry.2 ≠ .record cell) (ext : old.Extends base)
    (ts : List Token) :
    Gives base
      (entries.foldlM (fun tokens entry => replace entry.1 (variableToken entry.2) tokens) ts)
      fun now ts' =>
        List.Forall₂ (Token.Resolved (fun n => List.lookup n entries) old now) ts ts' := by
  induction entries generalizing base ts with
  | nil =>
      refine .pure fun heap _ => List.forall₂_same.mpr fun t _ => .free fun n _ => rfl
  | cons entry entries ih =>
      obtain ⟨n, v⟩ := entry
      have hn : Token.scan n.toList = .ok [.name n] := identifiers _ List.mem_cons_self
      have hends : old.Ends v := ends _ List.mem_cons_self
      have hv : ∀ cell, v ≠ .record cell := hrecord _ List.mem_cons_self
      rw [List.foldlM_cons]
      simp only [replace, ofText?_name hn]
      refine (replaceFrom_gives hn ext hends hv ts).bind fun heap ts' hbase hts' => ?_
      have more := ih (fun e he => identifiers e (List.mem_cons_of_mem _ he))
        (fun e he => ends e (List.mem_cons_of_mem _ he))
        (fun e he => hrecord e (List.mem_cons_of_mem _ he)) (ext.trans hbase) ts'
      have hlookup : (fun m => List.lookup m ((n, v) :: entries)) =
          fun m => if m = n then some v else List.lookup m entries :=
        funext fun m => NameMap.lookup_cons_ite m n v entries
      rw [hlookup]
      refine more.mono (.refl heap) fun heap' ts'' hheap hts'' => ?_
      have hgrown := hts'.imp fun _ _ h => h.grow hheap
      exact forall₂_comp (fun first others => first.trans others) hgrown hts''

end Phrase

/-! ## Trees -/

/-- A leaf has been resolved: a bound name has become a copy of its value, and every other leaf is
what it was. -/
inductive Expr.Resolved (lookup : String → Option Value) (old new : Heap) : Expr → Expr → Prop
  | bound {n : String} {v copy : Value} (h : lookup n = some v) (hcopy : v.Copied old new copy) :
      Resolved lookup old new (.name n) (.literal copy)
  | free {n : String} (h : lookup n = none) : Resolved lookup old new (.name n) (.name n)
  | literal (v : Value) : Resolved lookup old new (.literal v) (.literal v)

namespace Expr

variable {lookup : String → Option Value} {old new : Heap}

theorem exchanges_resolved :
    Exchanges (Token.Resolved lookup old new) (Resolved lookup old new) := by
  refine ⟨?_, ?_⟩
  · intro t t' h hleaf
    cases h with
    | bound _ _ => cases hleaf
    | free _ => rfl
  · intro t t' e h hleaf
    cases h with
    | bound h hcopy =>
        cases hleaf
        exact ⟨_, rfl, .bound h hcopy⟩
    | free h =>
        refine ⟨e, hleaf, ?_⟩
        unfold Token.leaf? at hleaf
        split at hleaf <;> cases hleaf
        all_goals first | exact .literal _ | exact .free (h _ rfl)

theorem exchanges_unresolved :
    Exchanges (fun t' t => Token.Resolved lookup old new t t') fun _ _ => True := by
  refine ⟨?_, ?_⟩
  · intro t' t h hleaf
    cases h with
    | bound _ _ => cases hleaf
    | free _ => rfl
  · intro t' t e h hleaf
    cases h with
    | bound _ _ => exact ⟨_, rfl, trivial⟩
    | free _ => exact ⟨e, hleaf, trivial⟩

/-- Resolving names before reading agrees with looking them up in the tree. -/
theorem resolving_commutes_with_reading (scope : Bindings) (ts : List Token) (store : Store)
    (identifiers : ∀ n v, scope.get? n = some v → Token.scan n.toList = .ok [.name n])
    (noRecords : ∀ n v, scope.get? n = some v → ∀ cell, v ≠ .record cell)
    (ends : ∀ n v, scope.get? n = some v → store.heap.Ends v) :
    ∃ ts' store', Phrase.replaceVariables scope ts store = (.ok ts', store') ∧
      store.heap.Extends store'.heap ∧
      ((∃ e', parse ts' = .ok e') ↔ ∃ e, parse ts = .ok e) ∧
      ∀ e e', parse ts = .ok e → parse ts' = .ok e' →
        Alike (Resolved scope.get? store.heap store'.heap) e e' := by
  have each (entry : String × Value) (h : entry ∈ scope.entries) :=
    (scope.mem_entries_iff entry).mp h
  have gives := Phrase.replaceAll_gives (fun entry h => identifiers _ _ (each entry h))
    (fun entry h => ends _ _ (each entry h)) (fun entry h => noRecords _ _ (each entry h))
    (.refl store.heap) ts
  rw [show (fun n => scope.entries.lookup n) = scope.get? from funext scope.lookup_entries] at gives
  obtain ⟨ts', store', hrun, hgrow, hts⟩ := gives store (.refl store.heap)
  obtain ⟨hiff, halike⟩ := exchanges_resolved.parse_iff exchanges_unresolved hts
  exact ⟨ts', store', hrun, hgrow, hiff, halike⟩

/-- A debt of three and a bag of two numbers. -/
def debtScope : Bindings :=
  NameMap.ofList [("debt", .int (-3)), ("bag", .list 0)]

def debtStore : Store :=
  { heap := { lists := #[[.int 1, .int 2]] } }

/-- The tokens of `debt ** 2 + bag[0]`. -/
def debtTokens : List Token :=
  [.name "debt", .sign .starStar, .int 2, .sign .plus, .name "bag", .sign .openBracket, .int 0,
    .sign .closeBracket]

/-- The tree of `debt ** 2 + bag[0]`, for any two leaves in the places of the names. -/
def debtTree (debt bag : Expr) : Expr :=
  .binary .add (.binary .power debt (.literal (.int 2))) (.index bag (.literal (.int 0)))

theorem resolving_commutes_with_reading_debt :
    ∃ ts' store', Phrase.replaceVariables debtScope debtTokens debtStore = (.ok ts', store') ∧
      parse debtTokens = .ok (debtTree (.name "debt") (.name "bag")) ∧
      parse ts' = .ok (debtTree (.literal (.int (-3))) (.literal (.list 1))) ∧
      Alike (Resolved debtScope.get? debtStore.heap store'.heap)
        (debtTree (.name "debt") (.name "bag"))
        (debtTree (.literal (.int (-3))) (.literal (.list 1))) := by
  have bindings (n : String) (v : Value) (h : debtScope.get? n = some v) :
      (n = "bag" ∧ v = .list 0) ∨ (n = "debt" ∧ v = .int (-3)) := by
    rw [show debtScope = (NameMap.empty.set "debt" (.int (-3))).set "bag" (.list 0) from rfl,
      NameMap.get?_set, NameMap.get?_set] at h
    split at h
    · exact .inl ⟨‹_›, (Option.some.inj h).symm⟩
    · split at h
      · exact .inr ⟨‹_›, (Option.some.inj h).symm⟩
      · cases h
  have hbag : debtStore.heap.Ends (.list 0) := by
    refine .of_contents rfl (by decide) fun w hw => .of_isScalar ?_
    have hitems : debtStore.heap.contents (.list 0) = [.int 1, .int 2] := rfl
    rw [hitems] at hw
    rcases List.mem_pair.mp hw with rfl | rfl <;> rfl
  have hparse : parse debtTokens = .ok (debtTree (.name "debt") (.name "bag")) := rfl
  have htokens : (Phrase.replaceVariables debtScope debtTokens debtStore).1 =
      .ok [.value (.int (-3)), .sign .starStar, .int 2, .sign .plus, .value (.list 1),
        .sign .openBracket, .int 0, .sign .closeBracket] := rfl
  obtain ⟨ts', store', hrun, -, -, halike⟩ :=
    resolving_commutes_with_reading debtScope debtTokens debtStore
      (by
        intro n v h
        rcases bindings n v h with ⟨rfl, -⟩ | ⟨rfl, -⟩ <;> rfl)
      (by
        intro n v h
        rcases bindings n v h with ⟨-, rfl⟩ | ⟨-, rfl⟩ <;> exact fun cell => nofun)
      (by
        intro n v h
        rcases bindings n v h with ⟨-, rfl⟩ | ⟨-, rfl⟩
        · exact hbag
        · exact .of_isScalar rfl)
  rw [hrun] at htokens
  cases htokens
  exact ⟨_, store', hrun, hparse, rfl, halike _ _ hparse rfl⟩

end Expr

end Parlance
