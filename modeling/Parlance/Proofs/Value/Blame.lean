import Parlance.Value.Arithmetic
import Parlance.Value.Order
import Parlance.Proofs.Value.Growth

/-!
# Which names failures blame

Of all failures only that of an undefined name blames a name. Operators, comparisons, indices and
copies work on values and blame none; a computation put together from parts blames what its parts do.
-/

namespace Parlance

theorem Error.eq_undefined_of_errorClass {e : Error} (h : e.errorClass = .name) :
    ∃ n, e = .undefined n := by
  cases e with
  | undefined n => exact ⟨n, rfl⟩
  | _ => cases h

/-- An outcome that is not a failure for the sake of a name. -/
def Blameless (r : Except Error α) : Prop :=
  ∀ n, r ≠ .error (.undefined n)

namespace Blameless

theorem ok (a : α) : Blameless (.ok a) :=
  fun _ => nofun

theorem bind {x : Except Error α} {f : α → Except Error β} (hx : Blameless x)
    (hf : ∀ a, Blameless (f a)) : Blameless (x >>= f) := by
  cases x with
  | error e => exact fun n h => hx n (congrArg Except.error (Except.error.inj h))
  | ok a => exact hf a

theorem map {x : Except Error α} (hx : Blameless x) (f : α → β) : Blameless (x.map f) := by
  cases x with
  | error e => exact fun n h => hx n (congrArg Except.error (Except.error.inj h))
  | ok a => exact ok (f a)

end Blameless

namespace Eval

/-- The failures of a computation blame only names that may be blamed, and its results are as
promised. -/
def Blames (may : String → Prop) (x : Eval α) (promised : α → Prop) : Prop :=
  ∀ store, (∀ n, (x store).1 = .error (.undefined n) → may n) ∧
    ∀ a, (x store).1 = .ok a → promised a

/-- A computation whose failures blame no name. -/
def BlamesNone (x : Eval α) : Prop :=
  Blames (fun _ => False) x fun _ => True

namespace Blames

variable {may : String → Prop} {promised : α → Prop}

theorem pure {a : α} (h : promised a) : Blames may (Pure.pure a) promised :=
  fun _ => ⟨nofun, fun _ ha => Except.ok.inj ha ▸ h⟩

theorem throw {e : Error} (h : ∀ n, e = .undefined n → may n) :
    Blames may (MonadExcept.throw e : Eval α) promised :=
  fun _ => ⟨fun n he => h n (Except.error.inj he), nofun⟩

theorem lift {r : Except Error α} (herror : ∀ n, r = .error (.undefined n) → may n)
    (hok : ∀ a, r = .ok a → promised a) : Blames may (liftM r : Eval α) promised :=
  fun _ => ⟨herror, hok⟩

theorem bind {x : Eval α} {f : α → Eval β} {promised' : β → Prop} (hx : Blames may x promised)
    (hf : ∀ a, promised a → Blames may (f a) promised') : Blames may (x >>= f) promised' := by
  intro store
  obtain ⟨herror, hok⟩ := hx store
  rw [bind_run]
  rcases hrun : x store with ⟨e | a, middle⟩
  all_goals rw [hrun] at herror hok
  · exact ⟨fun n he => herror n (congrArg Except.error (Except.error.inj he)), nofun⟩
  · exact hf a (hok a rfl) middle

theorem mono {may' : String → Prop} {promised' : α → Prop} {x : Eval α} (hx : Blames may x promised)
    (hmay : ∀ n, may n → may' n) (hpromised : ∀ a, promised a → promised' a) :
    Blames may' x promised' := by
  intro store
  obtain ⟨herror, hok⟩ := hx store
  exact ⟨fun n h => hmay n (herror n h), fun a h => hpromised a (hok a h)⟩

theorem heap : Blames may heap fun _ => True :=
  fun _ => ⟨nofun, fun _ _ => trivial⟩

theorem ite {c : Prop} [Decidable c] {x y : Eval α} (hx : Blames may x promised)
    (hy : Blames may y promised) : Blames may (if c then x else y) promised := by
  split
  · exact hx
  · exact hy

theorem foldlM {f : β → α → Eval β} {promised : β → Prop} (xs : List α)
    (hf : ∀ a ∈ xs, ∀ b, promised b → Blames may (f b a) promised) {b : β} (hb : promised b) :
    Blames may (xs.foldlM f b) promised := by
  induction xs generalizing b with
  | nil => exact .pure hb
  | cons x xs ih =>
      rw [List.foldlM_cons]
      have hfirst := hf x List.mem_cons_self b hb
      exact hfirst.bind fun b' hb' => ih (fun a ha => hf a (List.mem_cons_of_mem _ ha)) hb'

end Blames

namespace BlamesNone

theorem weaken {may : String → Prop} {x : Eval α} (hx : BlamesNone x) :
    Blames may x fun _ => True :=
  Blames.mono hx (fun _ => False.elim) fun _ => id

theorem pure (a : α) : BlamesNone (Pure.pure a) :=
  Blames.pure trivial

theorem throw {e : Error} (h : ∀ n, e ≠ .undefined n) : BlamesNone (MonadExcept.throw e : Eval α) :=
  Blames.throw h

theorem lift {r : Except Error α} (h : Blameless r) : BlamesNone (liftM r : Eval α) :=
  Blames.lift h fun _ _ => trivial

theorem bind {x : Eval α} {f : α → Eval β} (hx : BlamesNone x) (hf : ∀ a, BlamesNone (f a)) :
    BlamesNone (x >>= f) :=
  Blames.bind hx fun a _ => hf a

theorem heap : BlamesNone heap :=
  Blames.heap

theorem newList (items : List Value) : BlamesNone (newList items) :=
  fun _ => ⟨nofun, fun _ _ => trivial⟩

theorem newRecord (fields : Entries Value) : BlamesNone (newRecord fields) :=
  fun _ => ⟨nofun, fun _ _ => trivial⟩

theorem draw (f : Random → α × Random) : BlamesNone (draw f) :=
  fun _ => ⟨nofun, fun _ _ => trivial⟩

theorem ite {c : Prop} [Decidable c] {x y : Eval α} (hx : BlamesNone x) (hy : BlamesNone y) :
    BlamesNone (if c then x else y) :=
  Blames.ite hx hy

/-- A failure on a condition, in front of a computation. -/
theorem failIf {c : Prop} [Decidable c] {e : Error} {x : Eval α} (hx : BlamesNone x)
    (h : ∀ n, e ≠ .undefined n) : BlamesNone (if c then (do MonadExcept.throw e; x) else x) :=
  ite (bind (throw h) fun _ => hx) hx

theorem mapM {f : α → Eval β} (hf : ∀ a, BlamesNone (f a)) (xs : List α) :
    BlamesNone (xs.mapM f) := by
  induction xs with
  | nil => exact .pure []
  | cons x xs ih =>
      rw [List.mapM_cons]
      exact (hf x).bind fun _ => ih.bind fun _ => .pure _

end BlamesNone

end Eval

namespace Value

open Eval

/-! ## Copies -/

theorem blamesNone_detachFuel (heap : Heap) (fuel : Nat) (path : List Ref) (v : Value) :
    BlamesNone (detachFuel heap fuel path v) := by
  induction fuel generalizing path v with
  | zero =>
      cases v with
      | list cell => exact .throw fun _ h => by cases h
      | record cell => exact .throw fun _ h => by cases h
      | _ => exact .pure _
  | succ fuel ih =>
      cases v with
      | list cell =>
          have hcopies := BlamesNone.mapM (ih (.list cell :: path)) (heap.items cell)
          simp only [detachFuel]
          exact .failIf (.ite (.newList _) (hcopies.bind fun _ => .newList _)) fun _ h => by cases h
      | record cell =>
          have hcopies := BlamesNone.mapM (fun field : String × Value =>
            (ih (.record cell :: path) field.2).bind fun copy => .pure (field.1, copy))
              (heap.fields cell)
          simp only [detachFuel]
          exact .failIf (hcopies.bind fun _ => .newRecord _) fun _ h => by cases h
      | _ => exact .pure _

theorem blamesNone_detached (v : Value) : BlamesNone v.detached :=
  BlamesNone.heap.bind fun heap => blamesNone_detachFuel heap _ [] v

/-! ## Operators -/

theorem blameless_numeric (op : BinaryOp) (whole : Int64 → Int64 → Option Int64)
    (real : Float → Float → Float) (left right : Value) :
    Blameless (numeric op whole real left right) := by
  intro n
  unfold numeric
  split
  · split <;> exact nofun
  · exact nofun
  · exact nofun

theorem blamesNone_add (left right : Value) : BlamesNone (left.add right) := by
  unfold add
  split
  · exact .pure _
  · exact BlamesNone.heap.bind fun _ => .newList _
  · exact .lift (blameless_numeric _ _ _ _ _)

theorem blameless_repeatText (s : String) (count : Nat) : Blameless (repeatText s count) := by
  intro n
  unfold repeatText
  split
  · exact nofun
  · split <;> exact nofun

theorem blamesNone_repeatList (cell count : Nat) : BlamesNone (repeatList cell count) :=
  BlamesNone.heap.bind fun _ => .ite (.throw nofun) (.ite (.newList _) (.newList _))

theorem blamesNone_multiply (left right : Value) : BlamesNone (left.multiply right) := by
  unfold multiply
  split
  · exact .lift (blameless_repeatText _ _)
  · exact .lift (blameless_repeatText _ _)
  · exact blamesNone_repeatList _ _
  · exact blamesNone_repeatList _ _
  · exact .lift (blameless_numeric _ _ _ _ _)

theorem blameless_subtract (left right : Value) : Blameless (left.subtract right) := by
  unfold subtract
  exact blameless_numeric _ _ _ _ _

theorem blameless_divide (left right : Value) : Blameless (left.divide right) := by
  intro n
  unfold divide
  split
  · split <;> exact nofun
  · exact nofun

theorem blameless_floorDivide (left right : Value) : Blameless (left.floorDivide right) := by
  unfold floorDivide
  split
  · exact fun n => nofun
  · exact blameless_numeric _ _ _ _ _

theorem blameless_modulo (left right : Value) : Blameless (left.modulo right) := by
  unfold modulo
  split
  · exact fun n => nofun
  · exact blameless_numeric _ _ _ _ _

theorem blameless_power (left right : Value) : Blameless (left.power right) := by
  intro n
  unfold power
  split
  · split
    · exact nofun
    · dsimp only
      split
      · split
        · split <;> exact nofun
        · split <;> exact nofun
      · split <;> exact nofun
  · exact nofun

theorem blamesNone_binary (op : BinaryOp) (left right : Value) :
    BlamesNone (binary op left right) := by
  cases op with
  | add => exact blamesNone_add left right
  | subtract => exact .lift (blameless_subtract left right)
  | multiply => exact blamesNone_multiply left right
  | divide => exact .lift (blameless_divide left right)
  | floorDivide => exact .lift (blameless_floorDivide left right)
  | modulo => exact .lift (blameless_modulo left right)
  | power => exact .lift (blameless_power left right)

theorem blamesNone_unary (op : UnaryOp) (v : Value) : BlamesNone (unary op v) := by
  have hnegate : Blameless v.negate := by
    intro n
    unfold negate
    split <;> exact nofun
  have hplus : Blameless v.plus := by
    intro n
    unfold plus
    split <;> exact nofun
  cases op with
  | negate => exact .lift hnegate
  | plus => exact .lift hplus
  | not => exact BlamesNone.heap.bind fun _ => .pure _

/-! ## Comparisons and indices -/

theorem blameless_orderNumbers (symbol : String) (left right : Value) :
    Blameless (orderNumbers symbol left right) := by
  intro n
  unfold orderNumbers
  split <;> exact nofun

theorem blameless_orderFuel (heap : Heap) (symbol : String) (fuel : Nat) (seen : List (Nat × Nat))
    (left right : Value) : Blameless (orderFuel heap symbol fuel seen left right) := by
  fun_induction orderFuel heap symbol fuel seen left right with
  | case1 => exact .ok _
  | case2 => exact fun n => nofun
  | case3 => exact fun n => nofun
  | case4 => assumption
  | case5 => exact .ok _
  | case6 => exact blameless_orderNumbers _ _ _

theorem blameless_holds (heap : Heap) (container item : Value) :
    Blameless (holds heap container item) := by
  intro n
  unfold holds
  split
  · split <;> exact nofun
  · exact nofun
  · split <;> exact nofun
  · exact nofun

theorem blameless_compareWith (heap : Heap) (op : CompareOp) (left right : Value) :
    Blameless (compareWith heap op left right) := by
  have hordered (symbol : String) (accept : Ordering → Bool) :
      Blameless (ordered heap symbol accept left right) :=
    (blameless_orderFuel heap symbol _ [] left right).map _
  cases op with
  | equal => exact .ok _
  | notEqual => exact .ok _
  | within => exact blameless_holds heap right left
  | notWithin => exact (blameless_holds heap right left).map _
  | _ => exact hordered _ _

theorem blameless_position (heap : Heap) (index : Value) (length : Nat) :
    Blameless (position heap index length) := by
  intro n
  unfold position
  dsimp only
  split
  · split <;> exact nofun
  · exact nofun

theorem blameless_index (heap : Heap) (target place : Value) :
    Blameless (index heap target place) := by
  unfold index
  split
  · exact (blameless_position heap place _).bind fun _ => .ok _
  · exact (blameless_position heap place _).bind fun _ => .ok _
  · split <;> exact .ok _
  · exact fun n => nofun

end Value

end Parlance
