import Parlance.Machine.Basic
import Parlance.Proofs.Expr.Freshness
import Parlance.Proofs.Expr.Substitution

/-!
# What evaluating shares

Only three forms of text give a value as it is stored: a single name, a name with an index, and the
name of a record with that of one of its properties. The value of any other text is new.
-/

namespace Parlance

open Eval

variable {base now : Heap}

namespace Evaluate

/-- A text gives a value as it is stored: as that of a name, of an element or of a property. -/
inductive Shares (scope : Bindings) (heap : Heap) (text : List Char) (v : Value) : Prop
  | name {n : String} (form : Token.scan text = .ok [.name n]) (stored : scope.get? n = some v)
  | element {n : String} {rest : List Token} {target : Value} {r : Ref}
      (form : Token.scan text = .ok (.name n :: .sign .openBracket :: rest))
      (closed : closesAtEnd 1 rest = true) (bound : scope.get? n = some target)
      (container : target.ref? = some r) (stored : v ∈ heap.contents r)
  | property {name blanks property : List Char} {cell : Nat}
      (form : text = name ++ (blanks ++ property)) (apart : blanks ≠ [])
      (blank : ∀ c ∈ blanks, Text.isBlank c = true)
      (bound : scope.get? (String.ofList name) = some (.record cell))
      (stored : (heap.fields cell).get? (String.ofList property) = some v)

theorem lookup_eq_ok {scope : Bindings} {n : String} {v : Value} (h : lookup scope n = .ok v) :
    scope.get? n = some v := by
  unfold lookup at h
  split at h <;> cases h
  assumption

theorem scan_of_lexemes {text : List Char} {ls : List Lexeme} (h : lexemes text = .ok ls) :
    Lexeme.scan text = .ok ls := by
  unfold lexemes at h
  split at h <;> cases h
  assumption

theorem tokens_of_scan {text : List Char} {ls : List Lexeme} (h : Lexeme.scan text = .ok ls) :
    Token.scan text = .ok (ls.map Lexeme.token) := by
  rw [Token.scan, h]
  rfl

theorem lexemes_of_tokens {text : List Char} {ts : List Token} (h : Token.scan text = .ok ts) :
    ∃ ls, lexemes text = .ok ls ∧ ls.map Lexeme.token = ts := by
  unfold lexemes
  rw [Token.scan] at h
  cases hscan : Lexeme.scan text with
  | error fault =>
      rw [hscan] at h
      cases h
  | ok ls =>
      rw [hscan] at h
      exact ⟨ls, rfl, Except.ok.inj h⟩

theorem form_of_singleName {scope : Bindings} {ls : List Lexeme} {n : String}
    (h : singleName? scope ls = some n) : ls.map Lexeme.token = [.name n] := by
  unfold singleName? at h
  split at h
  · next l =>
    split at h
    · next m htoken =>
      split at h <;> cases h
      rw [List.map_singleton, htoken]
    · cases h
  · cases h

theorem form_of_indexed {ls : List Lexeme} {n : String} {inner : List Char}
    (h : indexed? ls = some (n, inner)) :
    ∃ rest, ls.map Lexeme.token = .name n :: .sign .openBracket :: rest ∧
      closesAtEnd 1 rest = true := by
  unfold indexed? at h
  split at h
  · next first opening rest =>
    split at h
    · next m closing htoken hclosing =>
      split at h
      · next hform =>
        cases h
        rw [Bool.and_eq_true] at hform
        refine ⟨rest.map Lexeme.token, ?_, hform.2⟩
        rw [List.map_cons, List.map_cons, htoken, Token.eq_sign_of_isSign hform.1]
      · cases h
    · cases h
  · cases h

theorem mem_records {heap : Heap} {scope : Bindings} {record : String × Entries Value}
    (h : record ∈ Phrase.records heap scope) :
    ∃ cell, scope.get? record.1 = some (.record cell) ∧ record.2 = heap.fields cell := by
  obtain ⟨entry, hentry, hrecord⟩ := List.mem_filterMap.mp h
  obtain ⟨name, value⟩ := entry
  cases value with
  | record cell =>
      cases hrecord
      exact ⟨cell, (scope.mem_entries_iff _).mp hentry, rfl⟩
  | _ => cases hrecord

theorem shares_of_property {heap heap' : Heap} {scope : Bindings} {text : List Char} {v : Value}
    (h : Phrase.property? (Phrase.records heap scope) text = some v) (ext : heap.Extends heap') :
    Shares scope heap' text v := by
  obtain ⟨⟨name, properties⟩, hrecord, hproperty⟩ := List.exists_of_findSome?_eq_some h
  obtain ⟨cell, hbound, hfields⟩ := mem_records hrecord
  dsimp only at hbound hfields hproperty
  split at hproperty
  · cases hproperty
  · cases hproperty
  · next c rest hafter =>
    split at hproperty
    · next hblank =>
      have htext : name.toList ++ (c :: rest) = text :=
        List.isPrefixOf?_eq_some_iff_append_eq.mp hafter
      have hsplit : (c :: rest).takeWhile Text.isBlank ++ Text.trimStart (c :: rest) = c :: rest :=
        List.takeWhile_append_dropWhile
      have hstored :
          (heap'.fields cell).get? (String.ofList (Text.trimStart (c :: rest))) = some v := by
        rw [hfields] at hproperty
        have hcell := Heap.record_mem_refs (Entries.mem_of_get? hproperty)
        have hsame : heap'.fields cell = heap.fields cell := ext.agreeAt hcell
        rw [hsame, hproperty]
      have hform : text = name.toList ++
          ((c :: rest).takeWhile Text.isBlank ++ Text.trimStart (c :: rest)) := by
        rw [hsplit, htext]
      refine .property hform ?_ ?_ ?_ hstored
      · rw [List.takeWhile_cons, if_pos hblank]
        exact List.cons_ne_nil _ _
      · exact List.all_eq_true.mp List.all_takeWhile
      · rw [String.ofList_toList]
        exact hbound
    · cases hproperty

theorem makes_unresolved (text : List Char) : MakesNew base now (unresolved text) := by
  refine Makes.bind (P := fun _ ls => Lexeme.scan text = .ok ls) (.lift fun ls _ _ _ h => ?_)
    fun heap ls _ hls => makes_tokens (Lexeme.new_tokens hls)
  exact scan_of_lexemes h

theorem makes_asWritten (text : List Char) :
    Makes base now (asWritten? text) fun heap written => ∀ v, written = some v → v.New base heap := by
  refine .ite ?_ (.pure fun _ _ _ => nofun)
  refine Makes.tryCatch ?_ fun _ heap _ => .pure fun _ _ _ => nofun
  refine (makes_unresolved text).bind fun heap v _ hv => .pure fun heap' ext _ w hw => ?_
  cases hw
  exact hv.grow ext

theorem makes_resolved (scope : Bindings) (records : List (String × Entries Value)) {text : List Char}
    {ls : List Lexeme} (hls : Lexeme.scan text = .ok ls) :
    MakesNew base now (resolved scope records ls) := by
  refine (Phrase.makes_replaceProperties records (Lexeme.new_tokens hls)).bind
    fun heap ts _ hts => (Phrase.makes_replaceVariables scope hts).bind
      fun heap' ts' _ hts' => makes_tokens ?_
  exact Joining.all_explicit nofun (fun _ => nofun) hts'

/-- What a text evaluates to is stored under what it names, or new. -/
abbrev MakesOrShares (base now : Heap) (scope : Bindings) (text : List Char) (x : Eval Value) :
    Prop :=
  Makes base now x fun heap v => Shares scope heap text v ∨ v.New base heap

theorem makes_lexedWith (scope : Bindings) {evaluateIndex : List Char → Eval Value}
    {text : List Char} {ls : List Lexeme} (hls : Lexeme.scan text = .ok ls)
    (hindex : ∀ inner, Makes base now (evaluateIndex inner) fun _ _ => True) :
    MakesOrShares base now scope text (lexedWith scope evaluateIndex text ls) := by
  have htokens := tokens_of_scan hls
  unfold lexedWith
  split
  · next n hname =>
    refine .lift fun v _ _ _ hv => .inl (.name (n := n) ?_ (lookup_eq_ok hv))
    rw [htokens, form_of_singleName hname]
  · split
    · next n inner hindexed =>
      obtain ⟨rest, hform, hclosed⟩ := form_of_indexed hindexed
      refine Makes.bind (P := fun _ target => scope.get? n = some target)
        (.lift fun target _ _ _ h => lookup_eq_ok h) fun heap target hnow hbound => ?_
      refine ((hindex inner).mono hnow fun _ _ _ h => h).bind fun heap₁ place _ _ => ?_
      refine Makes.heap.bind fun heap₂ h _ hheap => .lift fun v heap₃ ext _ hv => ?_
      obtain ⟨rfl, -⟩ := hheap
      rcases Value.mem_contents_of_index hv with hscalar | ⟨r, hr, hmem⟩
      · exact .inr (.of_isScalar hscalar)
      · have hsame := (ext.agreeAt (Heap.mem_refs_of_mem_contents hmem)).contents
        exact .inl (.element (htokens.trans (by rw [hform])) hclosed hbound hr (hsame ▸ hmem))
    · refine Makes.heap.bind fun heap h _ hheap => ?_
      obtain ⟨rfl, -⟩ := hheap
      dsimp only
      split
      · next v hproperty => exact .pure fun heap' ext _ => .inl (shares_of_property hproperty ext)
      · exact (makes_resolved scope _ hls).mono (.refl _) fun _ _ _ h => .inr h

theorem makes_textFuel (scope : Bindings) (fuel : Nat) (source : List Char) :
    MakesOrShares base now scope (Text.trim source) (textFuel scope fuel source) := by
  induction fuel generalizing now source with
  | zero => exact .throw _
  | succ fuel ih =>
      refine (makes_asWritten _).bind fun heap written hnow hwritten => ?_
      cases written with
      | some v => exact .pure fun heap' ext _ => .inr ((hwritten v rfl).grow ext)
      | none =>
          refine Makes.bind (P := fun _ ls => Lexeme.scan (Text.trim source) = .ok ls)
            (.lift fun ls _ _ _ h => scan_of_lexemes h) fun heap' ls _ hls => ?_
          exact makes_lexedWith scope hls fun inner =>
            (ih inner).mono (.refl _) fun _ _ _ _ => trivial

theorem makes_text (scope : Bindings) (source : String) :
    MakesOrShares base now scope (Text.trim source.toList) (text scope source) :=
  makes_textFuel scope _ _

/-- The records that evaluating makes are copies, so none of them doubles a property name. -/
theorem distinct_text (scope : Bindings) (source : String) {store : Store}
    (h : store.heap.Distinct) : (text scope source store).2.heap.Distinct :=
  (@makes_text store.heap store.heap scope source store (.refl _) (.refl _)).2.1.distinct h

end Evaluate

/-! ## Machines -/

namespace Exec

theorem evaluate_run (source : String) (m : Machine) :
    evaluate source m = ((Evaluate.text m.vars source m.store).1.mapError .failed,
      { m with store := (Evaluate.text m.vars source m.store).2 }) := by
  unfold evaluate onStore
  dsimp only
  rcases Evaluate.text m.vars source m.store with ⟨_ | v, store⟩ <;> rfl

/-- Evaluating changes no container and no binding, and what it gives shares no container with
anything that was there, unless the text names what is stored. So whatever becomes later of a new
value, and of all that is reached from it, all that was there stays as it was. -/
theorem evaluation_shares_nothing (m : Machine) (source : String) :
    ∃ store : Store, (evaluate source m).2 = { m with store } ∧
      m.store.heap.Extends store.heap ∧
      ∀ v, (evaluate source m).1 = .ok v → v.isScalar = false →
        Evaluate.Shares m.vars store.heap (Text.trim source.toList) v ∨
          (∀ r, store.heap.Reaches v r → r ∈ store.heap.refs ∧ r ∉ m.store.heap.refs) ∧
            ∀ later, store.heap.Becomes (store.heap.Reaches v) later →
              (∀ r ∈ m.store.heap.refs, m.store.heap.AgreeAt later r) ∧
                ∀ w, (∀ r, m.store.heap.Reaches w r → r ∈ m.store.heap.refs) →
                  ∀ r, later.Reaches w r ↔ m.store.heap.Reaches w r := by
  obtain ⟨hgrow, hsealed, hresult⟩ :=
    @Evaluate.makes_text m.store.heap m.store.heap m.vars source m.store (.refl _) (.refl _)
  rw [evaluate_run]
  refine ⟨_, rfl, hgrow, fun v hv _ => ?_⟩
  have htext : (Evaluate.text m.vars source m.store).1 = .ok v := by
    cases houtcome : (Evaluate.text m.vars source m.store).1 with
    | error e =>
        rw [houtcome] at hv
        cases hv
    | ok w =>
        rw [houtcome] at hv
        cases hv
        rfl
  rcases hresult v htext with hshares | hnew
  · exact .inl hshares
  · refine .inr ⟨fun r hr => hsealed.new_of_reaches hnew hr, fun later hlater => ?_⟩
    have hkept (r : Ref) (hr : r ∈ m.store.heap.refs) : m.store.heap.AgreeAt later r :=
      hsealed.agreeAt_later hnew hlater hr
    exact ⟨hkept, fun w hw => Heap.reaches_iff fun r hr => hkept r (hw r hr)⟩

/-- A machine with a bag in which there is a bag. -/
def bagMachine : Machine :=
  { vars := NameMap.ofList [("bag", .list 0)]
    store := { heap := { lists := #[[.list 1], [.int 1]] } } }

theorem bagMachine_ends : bagMachine.store.heap.Ends (.list 0) := by
  refine .of_contents rfl (by decide) fun inner hinner => ?_
  obtain rfl : inner = .list 1 := List.mem_singleton.mp hinner
  refine .of_contents rfl (by decide) fun v hv => .of_isScalar ?_
  obtain rfl : v = .int 1 := List.mem_singleton.mp hv
  rfl

theorem not_shares_sum {heap : Heap} {v : Value} :
    ¬ Evaluate.Shares bagMachine.vars heap (Text.trim "bag + bag".toList) v := by
  have hscan : Token.scan (Text.trim "bag + bag".toList) =
      .ok [.name "bag", .sign .plus, .name "bag"] := rfl
  rintro (⟨hform, -⟩ | ⟨hform, -, -, -, -⟩ | ⟨-, -, -, hbound, -⟩)
  · rw [hscan] at hform
    cases hform
  · rw [hscan] at hform
    cases hform
  · rw [show bagMachine.vars = NameMap.empty.set "bag" (.list 0) from rfl, NameMap.get?_set] at hbound
    split at hbound <;> cases hbound

/-- The sum of the bag and itself is apart from the bag: emptying it is not seen from there. -/
theorem evaluation_shares_nothing_of_sum :
    ∃ store : Store, evaluate "bag + bag" bagMachine = (.ok (.list 6), { bagMachine with store }) ∧
      (∀ r, store.heap.Reaches (.list 6) r → r ∉ bagMachine.store.heap.refs) ∧
      (∀ r, bagMachine.store.heap.Reaches (.list 0) r → r ∈ bagMachine.store.heap.refs) ∧
      (store.heap.modifyItems 6 fun _ => []).items 0 = [.list 1] ∧
      ∀ r, (store.heap.modifyItems 6 fun _ => []).Reaches (.list 0) r ↔
        bagMachine.store.heap.Reaches (.list 0) r := by
  have hcheck : (evaluate "bag + bag" bagMachine).1.toOption.bind Value.ref? = some (.list 6) := by
    decide +kernel
  have hvalue : (evaluate "bag + bag" bagMachine).1 = .ok (.list 6) := by
    cases houtcome : (evaluate "bag + bag" bagMachine).1 with
    | error halt =>
        rw [houtcome] at hcheck
        cases hcheck
    | ok v =>
        rw [houtcome] at hcheck
        cases v <;> cases hcheck
        rfl
  obtain ⟨store, hrun, -, hresult⟩ := evaluation_shares_nothing bagMachine "bag + bag"
  have hbag (r : Ref) (hr : bagMachine.store.heap.Reaches (.list 0) r) :
      r ∈ bagMachine.store.heap.refs := bagMachine_ends.present hr
  rcases hresult _ hvalue rfl with hshares | ⟨hnew, hunseen⟩
  · exact absurd hshares not_shares_sum
  · obtain ⟨hkept, hreaches⟩ := hunseen _ (.items .refl (.refl rfl) fun _ => [])
    exact ⟨store, Prod.ext hvalue hrun, fun r hr => (hnew r hr).2, hbag,
      hkept (.list 0) (by decide), hreaches _ hbag⟩

end Exec

end Parlance
