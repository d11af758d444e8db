import Parlance.Proofs.Statement.Contents
import Parlance.Statement.Form

/-!
# What lines can say

A line is the header of a statement, or a whole statement without blocks, or small talk. Whatever it
says, no block comes out of the line itself.
-/

namespace Parlance

namespace Form

/-! ## Optional results -/

/-- What holds of everything that an optional result can be. -/
def Every (P : α → Prop) (found : Option α) : Prop :=
  ∀ a, found = some a → P a

variable {P : α → Prop}

theorem Every.none : Every P none := by
  intro a h
  cases h

theorem Every.some {a : α} (h : P a) : Every P (some a) := by
  intro b hb
  cases hb
  exact h

theorem Every.map {Q : β → Prop} {f : α → β} (found : Option α) (h : ∀ a, Q (f a)) :
    Every Q (found.map f) := by
  cases found with
  | none => exact .none
  | some a => exact .some (h a)

theorem Every.bind {Q : β → Prop} {f : α → Option β} (found : Option α) (h : ∀ a, Every Q (f a)) :
    Every Q (found >>= f) := by
  cases found with
  | none => exact .none
  | some a => exact h a

theorem Every.orElse {first second : Option α} (h₁ : Every P first) (h₂ : Every P second) :
    Every P (first <|> second) := by
  cases first with
  | none => exact h₂
  | some a => exact h₁

theorem Every.ite {c : Prop} [Decidable c] {first second : Option α} (h₁ : Every P first)
    (h₂ : Every P second) : Every P (if c then first else second) := by
  split
  · exact h₁
  · exact h₂

theorem Every.getD {found : Option α} {default : α} (h : Every P found) (hdefault : P default) :
    P (found.getD default) := by
  cases found with
  | none => exact hdefault
  | some a => exact h a rfl

theorem Every.lift {Q : β → Prop} {f : α → β} {found : Option α} (h : Every P found)
    (hf : ∀ a, P a → Q (f a)) : Every Q (found.map f) := by
  cases found with
  | none => exact .none
  | some a => exact .some (hf a (h a rfl))

/-- An action without blocks. -/
abbrev Blockless (a : Action) : Prop :=
  a.blocks = []

/-- A form that is a header, or a whole statement without blocks. -/
def WellShaped : Form → Prop
  | .simple action => Blockless action
  | _ => True

/-- Whether a line asks a question. -/
def isQuestion : Form → Bool
  | .question _ => true
  | _ => false

/-- Whether a line is small talk. -/
def isRemark : Form → Bool
  | .remark => true
  | _ => false

/-! ## Whole statements -/

theorem blockless_object (text : List Char) : Blockless (object text) := by
  unfold object
  dsimp only
  split <;> rfl

theorem blockless_loss (name rest : List Char) : Blockless (loss name rest) := by
  unfold loss
  split <;> rfl

theorem blockless_gain (name rest : List Char) : Blockless (gain name rest) := by
  unfold gain
  dsimp only
  split
  · rfl
  · split <;> rfl

theorem blockless_happening (text : List Char) : Every Blockless (happening? text) := by
  refine .bind _ fun subject => ?_
  dsimp only
  split
  · exact .some (blockless_loss _ _)
  · exact .bind _ fun parts => .some (blockless_gain _ _)

theorem blockless_story (text : List Char) : Every Blockless (story? text) := by
  refine .orElse ?_ (.orElse (.map _ fun _ => rfl) (.orElse ?_ (blockless_happening text)))
  · exact .bind _ fun rest => .bind _ fun parts => .some rfl
  · exact .map _ blockless_object

theorem blockless_call (text : List Char) : Every Blockless (call? text) := by
  refine .bind _ fun rest => ?_
  dsimp only
  split <;> exact .some rfl

theorem blockless_assignment (text : List Char) : Every Blockless (assignment? text) := by
  refine .orElse ?_ (.orElse ?_ (.orElse ?_ (.orElse ?_ ?_))) <;> exact .map _ fun _ => rfl

theorem blockless_ask (text : List Char) : Every Blockless (ask? text) :=
  .bind _ fun _ => .bind _ fun _ => .some rfl

theorem blockless_display (text : List Char) : Every Blockless (display? text) := by
  refine .orElse ?_ (.orElse ?_ (.orElse ?_ (.orElse ?_ (.orElse ?_ ?_)))) <;>
    exact .map _ fun _ => rfl

theorem blockless_transfer (text : List Char) : Every Blockless (transfer? text) := by
  refine .orElse ?_ (.orElse ?_ (.orElse ?_ ?_)) <;> exact .map _ fun _ => rfl

theorem blockless_list (text : List Char) : Every Blockless (list? text) := by
  refine .orElse ?_ (.orElse ?_ ?_) <;> exact .map _ fun _ => rfl

/-! ## Sentences -/

/-- What holds of whole statements without blocks and of headers holds of every sentence. -/
theorem ofSentence_cases {P : Form → Prop} (whole : ∀ action, Blockless action → P (.simple action))
    (header : ∀ form : Form, (∀ action, form ≠ .simple action) → form ≠ .remark → P form)
    (text : List Char) : P (ofSentence text) := by
  have said {found : Option Action} (h : Every Blockless found) : Every P (found.map simple) :=
    h.lift whole
  have giveBack : Every Blockless (giveBack? text) := .map _ fun _ => rfl
  have question : Every P (question? text) := .ite (.some (header _ nofun nofun)) .none
  have define : Every P (define? text) := by
    refine .bind _ fun rest => ?_
    dsimp only
    split
    · exact .none
    · split <;> exact .some (header _ nofun nofun)
  have attempt : Every P (if opensWith "attempt:" text then some attempt else none) :=
    .ite (.some (header _ nofun nofun)) .none
  have loop : Every P (loop? text) := by
    refine .orElse ?_ (.orElse ?_ (.orElse ?_ ?_))
    · exact .bind _ fun _ => .bind _ fun _ => .some (header _ nofun nofun)
    · exact .bind _ fun _ => .bind _ fun _ => .bind _ fun _ => .some (header _ nofun nofun)
    · exact .bind _ fun _ => .bind _ fun _ => .some (header _ nofun nofun)
    · exact .bind _ fun _ => .bind _ fun _ => .some (header _ nofun nofun)
  have choose : Every P (choose? text) :=
    .bind _ fun _ => .ite (.some (header _ nofun nofun)) .none
  have found :=
    (said (blockless_story text)).orElse <| question.orElse <| define.orElse <|
      (said (blockless_call text)).orElse <| (said giveBack).orElse <| attempt.orElse <|
      (said (blockless_assignment text)).orElse <| (said (blockless_ask text)).orElse <|
      (said (blockless_display text)).orElse <| (said (blockless_transfer text)).orElse <|
      loop.orElse <| (said (blockless_list text)).orElse choose
  exact found.getD (whole _ rfl)

/-- A sentence is never small talk. -/
theorem isRemark_ofSentence (text : List Char) : (ofSentence text).isRemark = false := by
  refine @ofSentence_cases (fun form => form.isRemark = false) (fun _ _ => rfl) ?_ text
  intro form _ hremark
  cases form with
  | remark => exact absurd rfl hremark
  | _ => rfl

/-- A line that is a whole statement holds no blocks. -/
theorem wellShaped_ofLine (text : List Char) : (ofLine text).WellShaped := by
  have sentence (text : List Char) : (ofSentence text).WellShaped := by
    refine ofSentence_cases (fun _ h => h) ?_ text
    intro form hsimple _
    cases form with
    | simple action => exact absurd rfl (hsimple action)
    | _ => trivial
  unfold ofLine
  split
  · exact rfl
  · split
    · exact rfl
    · split
      · trivial
      · exact sentence _

end Form

end Parlance
