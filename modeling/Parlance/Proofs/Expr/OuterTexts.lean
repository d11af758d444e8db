import Parlance.Expr.Joining
import Parlance.Proofs.Expr.Brackets

/-!
# Texts outside brackets

Tokens are split at the texts outside all brackets by counting brackets without regard to their
kinds, and a closing bracket too many does not count. Where brackets are nested, the count is that
of the brackets awaited. So nested tokens are split at exactly those texts that stand behind nested
ones, and there is one way to do so.
-/

namespace Parlance

namespace Joining

open Brackets

variable {d : Nat} {ts run : List Token} {t : Token} {texts : List (List Token × Token)}
  {last : List Token}

/-! ## Depths -/

/-- How many brackets are open behind some tokens. -/
def depth (d : Nat) (ts : List Token) : Nat :=
  ts.foldl depthAfter d

@[simp] theorem depth_nil : depth d [] = d :=
  rfl

@[simp] theorem depth_cons : depth d (t :: ts) = depth (depthAfter d t) ts :=
  rfl

theorem depth_append : depth d (run ++ ts) = depth (depth d run) ts :=
  List.foldl_append

theorem depthAfter_of_step {awaited awaited' : List Sign}
    (h : step awaited t.bracket = some awaited') : depthAfter awaited.length t = awaited'.length := by
  cases hbracket : t.bracket with
  | opens close =>
      rw [hbracket, step] at h
      cases h
      unfold Token.bracket at hbracket
      split at hbracket <;> first | rfl | cases hbracket
  | closes close =>
      rw [hbracket] at h
      cases awaited with
      | nil => cases h
      | cons next awaited =>
          simp only [step] at h
          split at h <;> cases h
          unfold Token.bracket at hbracket
          split at hbracket <;> first | rfl | cases hbracket
  | neither =>
      rw [hbracket, step] at h
      cases h
      unfold depthAfter
      split <;> first | rfl | cases hbracket

/-- As long as brackets close what is open, the count is that of the brackets awaited. -/
theorem depth_of_after {awaited awaited' : List Sign} (h : after awaited ts = some awaited') :
    depth awaited.length ts = awaited'.length := by
  induction ts generalizing awaited with
  | nil =>
      cases h
      rfl
  | cons t ts ih =>
      rw [after_cons] at h
      obtain ⟨middle, hstep, hafter⟩ := Option.bind_eq_some_iff.mp h
      rw [depth_cons, depthAfter_of_step hstep]
      exact ih hafter

theorem nested_of_depth {awaited : List Sign} (h : after [] ts = some awaited)
    (hdepth : depth 0 ts = 0) : Nested ts := by
  have hlength : awaited.length = 0 := (depth_of_after h).symm.trans hdepth
  rw [Nested, h, List.length_eq_zero_iff.mp hlength]

theorem depth_of_nested (h : Nested ts) : depth 0 ts = 0 :=
  depth_of_after h

/-! ## Splitting -/

theorem depthAfter_of_isText (h : t.isText = true) : depthAfter d t = d := by
  unfold Token.isText at h
  split at h <;> first | rfl | cases h

theorem bracket_of_isText (h : t.isText = true) : t.bracket = .neither := by
  unfold Token.isText at h
  split at h <;> first | rfl | cases h

/-- No text stands outside all brackets, if there are `d` around the tokens. -/
def Covered (d : Nat) (ts : List Token) : Prop :=
  ∀ front t back, ts = front ++ t :: back → t.isText = true → depth d front ≠ 0

theorem covered_nil : Covered d [] :=
  fun _ _ _ h => absurd (congrArg List.length h) (by simp)

theorem covered_cons_iff :
    Covered d (t :: ts) ↔ (t.isText = true → d ≠ 0) ∧ Covered (depthAfter d t) ts := by
  constructor
  · intro h
    refine ⟨h [] t ts rfl, fun front u back hts hu => ?_⟩
    exact h (t :: front) u back (by rw [hts]; rfl) hu
  · rintro ⟨hfirst, hrest⟩ front u back hts hu
    cases front with
    | nil =>
        obtain ⟨rfl, -⟩ := List.cons.inj hts
        exact hfirst hu
    | cons first front =>
        rw [List.cons_append] at hts
        obtain ⟨rfl, hbehind⟩ := List.cons.inj hts
        exact hrest front u back hbehind hu

/-- Tokens at a depth are split into runs and the texts outside brackets between them. -/
inductive Splits : Nat → List Token → List (List Token × Token) → List Token → Prop
  | last {d : Nat} {run : List Token} (covered : Covered d run) : Splits d run [] run
  | text {d : Nat} {run ts last : List Token} {t : Token} {texts : List (List Token × Token)}
      (covered : Covered d run) (outside : depth d run = 0) (text : t.isText = true)
      (more : Splits 0 ts texts last) : Splits d (run ++ t :: ts) ((run, t) :: texts) last

/-- A token that is no text outside brackets belongs to the first run. -/
theorem Splits.cons (ht : t.isText = true → d ≠ 0) (h : Splits (depthAfter d t) ts texts last) :
    match texts with
    | [] => Splits d (t :: ts) [] (t :: last)
    | (run, u) :: texts => Splits d (t :: ts) ((t :: run, u) :: texts) last := by
  cases h with
  | last covered => exact .last (covered_cons_iff.mpr ⟨ht, covered⟩)
  | text covered outside htext more =>
      exact Splits.text (covered_cons_iff.mpr ⟨ht, covered⟩) outside htext more

theorem splits_split (d : Nat) (ts : List Token) :
    Splits d ts (split d ts).texts (split d ts).last := by
  induction ts generalizing d with
  | nil => exact .last covered_nil
  | cons t ts ih =>
      have more := ih (depthAfter d t)
      simp only [split]
      by_cases houtside : (depthAfter d t == 0 && t.isText) = true
      · rw [if_pos houtside]
        simp only [Bool.and_eq_true, beq_iff_eq] at houtside
        obtain ⟨hzero, htext⟩ := houtside
        rw [hzero] at more ⊢
        rw [depthAfter_of_isText htext] at hzero
        exact Splits.text covered_nil hzero htext more
      · rw [if_neg houtside]
        have ht : t.isText = true → d ≠ 0 := by
          intro htext hzero
          rw [depthAfter_of_isText htext, htext, hzero] at houtside
          exact houtside rfl
        rcases htexts : (split (depthAfter d t) ts).texts with _ | ⟨⟨run, text⟩, texts⟩
        · rw [htexts] at more
          exact more.cons ht
        · rw [htexts] at more
          exact more.cons ht

/-- A run ends at the first text outside brackets. -/
theorem run_unique {run' ts' : List Token} {t' : Token} (covered : Covered d run)
    (covered' : Covered d run') (outside : depth d run = 0) (outside' : depth d run' = 0)
    (ht : t.isText = true) (ht' : t'.isText = true) (h : run ++ t :: ts = run' ++ t' :: ts') :
    run = run' ∧ t = t' ∧ ts = ts' := by
  refine cut_unique h ?_ ?_
  · rintro more rfl
    exact covered run' t' more rfl ht' outside'
  · rintro more rfl
    exact covered' run t more rfl ht outside

theorem Splits.unique {texts' : List (List Token × Token)} {last' : List Token}
    (h : Splits d ts texts last) (h' : Splits d ts texts' last') : texts = texts' ∧ last = last' := by
  induction h generalizing texts' last' with
  | last covered =>
      cases h' with
      | last _ => exact ⟨rfl, rfl⟩
      | text _ outside htext _ => exact absurd outside (covered _ _ _ rfl htext)
  | @text d run ts last t texts covered outside htext _ ih =>
      generalize hts : run ++ t :: ts = ts₁ at h'
      cases h' with
      | last covered' => exact absurd outside (covered' _ _ _ hts.symm htext)
      | text covered' outside' htext' more' =>
          obtain ⟨rfl, rfl, rfl⟩ :=
            run_unique covered covered' outside outside' htext htext' hts
          obtain ⟨rfl, rfl⟩ := ih more'
          exact ⟨rfl, rfl⟩

theorem Splits.spelled (h : Splits d ts texts last) :
    ts = texts.flatMap (fun part => part.1 ++ [part.2]) ++ last ∧
      ∀ part ∈ texts, part.2.isText = true := by
  induction h with
  | last covered => exact ⟨rfl, nofun⟩
  | text covered outside htext _ ih =>
      obtain ⟨hspelled, htexts⟩ := ih
      refine ⟨?_, List.forall_mem_cons.mpr ⟨htext, htexts⟩⟩
      rw [hspelled]
      simp

/-! ## Nested tokens -/

/-- The runs between texts, and the one behind the last of them. -/
def Split.runs (parts : Split) : List (List Token) :=
  parts.texts.map Prod.fst ++ [parts.last]

/-- Nested runs, none of which has a text outside its brackets, and the texts between them, one
after the other. -/
structure Split.Of (parts : Split) (ts : List Token) : Prop where
  spelled : ts = parts.texts.flatMap (fun part => part.1 ++ [part.2]) ++ parts.last
  texts : ∀ part ∈ parts.texts, part.2.isText = true
  nested : ∀ run ∈ parts.runs, Nested run
  covered : ∀ run ∈ parts.runs, ∀ front t back, run = front ++ t :: back → t.isText = true →
    ¬ Nested front

/-- In nested tokens, a place outside brackets is one behind nested tokens. -/
theorem covered_iff (h : Nested ts) :
    Covered 0 ts ↔ ∀ front t back, ts = front ++ t :: back → t.isText = true → ¬ Nested front := by
  constructor
  · intro covered front t back hts ht hfront
    exact covered front t back hts ht (depth_of_nested hfront)
  · intro covered front t back hts ht hdepth
    rw [Nested, hts] at h
    obtain ⟨awaited, hafter, -⟩ := exists_after_of_append h
    exact covered front t back hts ht (nested_of_depth hafter hdepth)

theorem Split.Of.splits {parts : Split} (h : parts.Of ts) : Splits 0 ts parts.texts parts.last := by
  obtain ⟨texts, last⟩ := parts
  obtain ⟨spelled, htexts, hnested, hcovered⟩ := h
  subst spelled
  induction texts with
  | nil =>
      have hmem : last ∈ Split.runs ⟨[], last⟩ := List.mem_singleton_self last
      exact .last ((covered_iff (hnested _ hmem)).mpr (hcovered _ hmem))
  | cons part texts ih =>
      obtain ⟨run, t⟩ := part
      have hmem : run ∈ Split.runs ⟨(run, t) :: texts, last⟩ := List.mem_cons_self
      have hrest (other : List Token) (h : other ∈ Split.runs ⟨texts, last⟩) :
          other ∈ Split.runs ⟨(run, t) :: texts, last⟩ := List.mem_cons_of_mem run h
      have more := ih (fun part hpart => htexts part (List.mem_cons_of_mem _ hpart))
        (fun other h => hnested other (hrest other h)) (fun other h => hcovered other (hrest other h))
      have hrun := hnested _ hmem
      have hsplits := Splits.text ((covered_iff hrun).mpr (hcovered _ hmem)) (depth_of_nested hrun)
        (htexts _ List.mem_cons_self) more
      simpa using hsplits

theorem Splits.nested_runs (h : Splits d ts texts last) (hd : d = 0) (hts : Nested ts) :
    ∀ run ∈ Split.runs ⟨texts, last⟩, Nested run ∧ Covered 0 run := by
  induction h with
  | last covered =>
      subst hd
      intro run hrun
      rw [List.mem_singleton.mp hrun]
      exact ⟨hts, covered⟩
  | @text d run ts last t texts covered outside htext _ ih =>
      subst hd
      obtain ⟨awaited, hafter, -⟩ := exists_after_of_append hts
      have hrun : Nested run := nested_of_depth hafter outside
      have hrest : Nested ts :=
        (Nested.cons_iff (bracket_of_isText htext)).mp (hts.of_append_left hrun)
      exact List.forall_mem_cons.mpr ⟨⟨hrun, covered⟩, ih rfl hrest⟩

theorem Splits.of_nested {parts : Split} (h : Splits 0 ts parts.texts parts.last)
    (hts : Nested ts) : parts.Of ts := by
  have hruns := h.nested_runs rfl hts
  refine ⟨h.spelled.1, h.spelled.2, fun run hrun => (hruns run hrun).1, fun run hrun => ?_⟩
  exact (covered_iff (hruns run hrun).1).mp (hruns run hrun).2

/-- Nested tokens are split in one way. -/
theorem split_of_iff (h : Nested ts) (parts : Split) : parts.Of ts ↔ parts = split 0 ts := by
  constructor
  · intro hof
    obtain ⟨htexts, hlast⟩ := hof.splits.unique (splits_split 0 ts)
    obtain ⟨texts, last⟩ := parts
    dsimp only at htexts hlast
    rw [htexts, hlast]
  · rintro rfl
    exact (splits_split 0 ts).of_nested h

theorem nested_texts {texts : List (List Token × Token)} (hruns : ∀ part ∈ texts, Nested part.1)
    (htexts : ∀ part ∈ texts, part.2.isText = true) :
    Nested (texts.flatMap fun part => part.1 ++ [part.2]) := by
  induction texts with
  | nil => exact .nil
  | cons part texts ih =>
      rw [List.forall_mem_cons] at hruns htexts
      have htext : Nested [part.2] := (Nested.cons_iff (bracket_of_isText htexts.1)).mpr .nil
      exact (hruns.1.append htext).append (ih hruns.2 htexts.2)

/-- A run stands behind nested tokens. -/
theorem Split.Of.place {parts : Split} {ts run : List Token} (h : parts.Of ts)
    (hrun : run ∈ parts.runs) : ∃ front back, ts = front ++ (run ++ back) ∧ Nested front := by
  obtain ⟨texts, last⟩ := parts
  have hnested (part : List Token × Token) (hpart : part ∈ texts) : Nested part.1 :=
    h.nested _ (List.mem_append_left _ (List.mem_map_of_mem hpart))
  rcases List.mem_append.mp hrun with hrun | hrun
  · obtain ⟨part, hpart, rfl⟩ := List.mem_map.mp hrun
    obtain ⟨init, rest, rfl⟩ := List.append_of_mem hpart
    have hfront : Nested (init.flatMap fun part => part.1 ++ [part.2]) :=
      nested_texts (fun part hpart => hnested part (List.mem_append_left _ hpart))
        fun part hpart => h.texts part (List.mem_append_left _ hpart)
    refine ⟨_, [part.2] ++ (rest.flatMap (fun part => part.1 ++ [part.2]) ++ last), ?_, hfront⟩
    rw [h.spelled, List.flatMap_append, List.flatMap_cons]
    simp only [List.append_assoc]
  · obtain rfl := List.mem_singleton.mp hrun
    refine ⟨_, [], ?_, nested_texts hnested h.texts⟩
    rw [h.spelled, List.append_nil]

end Joining

end Parlance
