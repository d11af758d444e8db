import Parlance.Proofs.Expr.Derivation

/-!
# What a reading has derived

The readers of the grammar, one for each level, and the loops behind those levels whose left side is
of the same level. A reader that gives a tree has derived it from the tokens in front of those that
it leaves.
-/

namespace Parlance

theorem Except.bind_eq_ok {ε α β : Type} {x : Except ε α} {f : α → Except ε β} {b : β} :
    (x >>= f) = .ok b ↔ ∃ a, x = .ok a ∧ f a = .ok b := by
  cases x with
  | error fault => simp [bind, Except.bind]
  | ok a => simp [bind, Except.bind]

theorem Token.eq_sign_of_isSign {s : Sign} {t : Token} (h : t.isSign s = true) : t = .sign s := by
  cases t with
  | sign s' => rw [eq_of_beq h]
  | _ => cases h

namespace Expr

/-- What a token that joins two operands of a level makes of them. -/
def Level.joint? : Level → Token → Option (Expr → Expr → Expr)
  | .or, .keyword .or => some .or
  | .and, .keyword .and => some .and
  | .sum, .sign .plus => some (.binary .add)
  | .sum, .sign .minus => some (.binary .subtract)
  | .term, .sign .star => some (.binary .multiply)
  | .term, .sign .slash => some (.binary .divide)
  | .term, .sign .slashSlash => some (.binary .floorDivide)
  | .term, .sign .percent => some (.binary .modulo)
  | _, _ => none

theorem Derives.joined {l l' : Level} {t : Token} {f : Expr → Expr → Expr} {ts us : List Token}
    {a b : Expr} (joint : l.joint? t = some f) (next : l.tighter? = some l')
    (left : Derives l ts a) (right : Derives l' us b) : Derives l (ts ++ t :: us) (f a b) := by
  unfold Level.joint? at joint
  split at joint <;> cases joint <;> cases next
  · exact .or left right
  · exact .and left right
  · exact .sum (by decide) left right
  · exact .sum (by decide) left right
  · exact .term (by decide) left right
  · exact .term (by decide) left right
  · exact .term (by decide) left right
  · exact .term (by decide) left right

/-- What a token in front of an operand of a level makes of it. -/
def Level.front? : Level → Token → Option (Expr → Expr)
  | .not, .keyword .not => some (.unary .not)
  | .signed, .sign .minus => some (.unary .negate)
  | .signed, .sign .plus => some (.unary .plus)
  | _, _ => none

theorem Derives.fronted {l : Level} {t : Token} {f : Expr → Expr} {ts : List Token} {e : Expr}
    (front : l.front? t = some f) (operand : Derives l ts e) : Derives l (t :: ts) (f e) := by
  unfold Level.front? at front
  split at front <;> cases front
  · exact .not operand
  · exact .signed (by decide) operand
  · exact .signed (by decide) operand

theorem DerivesSequence.cons {ts us : List Token} {e : Expr} {es : List Expr}
    (item : Derives .or ts e) (more : DerivesSequence us es) :
    DerivesSequence (ts ++ .sign .comma :: us) (e :: es) := by
  cases more with
  | nil => exact .trailing (.one item)
  | plain items => exact .plain (.more item items)
  | trailing items => simpa using DerivesSequence.trailing (.more item items)

/-- The reader of a level. -/
def read : Level → Nat → List Token → Except ParseFault (Expr × List Token)
  | .or => readOr
  | .and => readAnd
  | .not => readNot
  | .comparison => readComparison
  | .sum => readSum
  | .term => readTerm
  | .signed => readUnary
  | .power => readPower
  | .access => readPostfix
  | .atom => readPrimary

/-- Whether the left side of a level is of the same level. -/
def Level.repeats : Level → Bool
  | .or | .and | .sum | .term | .access => true
  | .not | .comparison | .signed | .power | .atom => false

/-- The loop of a level that repeats; the others have read all that is theirs. -/
def readTail : Level → Nat → Expr → List Token → Except ParseFault (Expr × List Token)
  | .or => readOrTail
  | .and => readAndTail
  | .sum => readSumTail
  | .term => readTermTail
  | .access => readPostfixTail
  | _ => fun _ e tokens => .ok (e, tokens)

theorem read_zero (l : Level) (ts : List Token) : read l 0 ts = .error .ended := by
  cases l <;> rfl

theorem read_repeats {l l' : Level} (h : l.repeats = true) (next : l.tighter? = some l')
    (fuel : Nat) (ts : List Token) :
    read l (fuel + 1) ts = read l' fuel ts >>= fun r => readTail l fuel r.1 r.2 := by
  cases l <;> cases h <;> cases next <;> rfl

theorem readTail_joint {l l' : Level} {t : Token} {f : Expr → Expr → Expr}
    (joint : l.joint? t = some f) (next : l.tighter? = some l') (fuel : Nat) (left : Expr)
    (ts : List Token) :
    readTail l (fuel + 1) left (t :: ts) =
      read l' fuel ts >>= fun r => readTail l fuel (f left r.1) r.2 := by
  unfold Level.joint? at joint
  split at joint <;> cases joint <;> cases next <;> rfl

theorem readTail_nil (l : Level) (fuel : Nat) (left : Expr) :
    readTail l (fuel + 1) left [] = .ok (left, []) := by
  cases l <;> rfl

theorem readTail_noJoint {l : Level} {t : Token} (h : l ≠ .access) (joint : l.joint? t = none)
    (fuel : Nat) (left : Expr) (ts : List Token) :
    readTail l (fuel + 1) left (t :: ts) = .ok (left, t :: ts) := by
  cases t with
  | sign s => cases l <;> first | rfl | contradiction | (cases s <;> first | rfl | cases joint)
  | keyword k => cases l <;> first | rfl | contradiction | (cases k <;> first | rfl | cases joint)
  | _ => cases l <;> rfl

theorem read_front {l : Level} {t : Token} {f : Expr → Expr} (front : l.front? t = some f)
    (fuel : Nat) (ts : List Token) :
    read l (fuel + 1) (t :: ts) = read l fuel ts >>= fun r => .ok (f r.1, r.2) := by
  unfold Level.front? at front
  split at front <;> cases front <;> rfl

theorem read_noFront {l l' : Level} (h : l = .not ∨ l = .signed) (next : l.tighter? = some l')
    (fuel : Nat) (ts : List Token) (front : ∀ t ∈ ts.head?, l.front? t = none) :
    read l (fuel + 1) ts = read l' fuel ts := by
  cases ts with
  | nil => rcases h with rfl | rfl <;> cases next <;> rfl
  | cons t ts =>
      have ht := front t rfl
      cases t with
      | sign s =>
          rcases h with rfl | rfl <;> cases next
          · rfl
          · cases s <;> first | rfl | cases ht
      | keyword k =>
          rcases h with rfl | rfl <;> cases next
          · cases k <;> first | rfl | cases ht
          · rfl
      | _ => rcases h with rfl | rfl <;> cases next <;> rfl

theorem expect_eq_ok {wanted : Sign} {ts rest : List Token} (h : expect wanted ts = .ok rest) :
    ts = .sign wanted :: rest := by
  cases ts with
  | nil => cases h
  | cons t ts =>
      simp only [expect] at h
      split at h
      · next ht =>
        cases h
        rw [Token.eq_sign_of_isSign ht]
      · cases h

theorem compareOp?_eq_some {ts rest : List Token} {op : CompareOp}
    (h : compareOp? ts = some (op, rest)) : ts = op.tokens ++ rest := by
  unfold compareOp? at h
  split at h <;> cases h <;> rfl

/-! ## What is read is derived -/

/-- What one unit of a kind was read from: the tokens in front of those that are left. -/
def Took {α : Type} (derives : List Token → α → Prop) (ts : List Token) (a : α)
    (rest : List Token) : Prop :=
  ∃ used, ts = used ++ rest ∧ derives used a

/-- The readings of a depth are derivations. -/
structure Sound (fuel : Nat) : Prop where
  level {l : Level} {ts rest : List Token} {e : Expr} (h : read l fuel ts = .ok (e, rest)) :
    Took (Derives l) ts e rest
  tail {l : Level} {front ts rest : List Token} {a e : Expr} (left : Derives l front a)
    (h : readTail l fuel a ts = .ok (e, rest)) :
    Took (fun used => Derives l (front ++ used)) ts e rest
  links {ts rest : List Token} {links : List Link} (h : readLinks fuel ts = .ok (links, rest)) :
    Took DerivesLinks ts links rest
  items {close : Sign} {ts rest : List Token} {es : List Expr}
    (h : readItems fuel close ts = .ok (es, rest)) :
    Took DerivesSequence ts es (.sign close :: rest)
  sequence {close : Sign} {ts rest : List Token} {es : List Expr}
    (h : readSequence fuel close ts = .ok (es, rest)) :
    Took DerivesSequence ts es (.sign close :: rest)

namespace Sound

variable {fuel : Nat}

theorem level_repeats (ih : Sound fuel) {l l' : Level} (repeats : l.repeats = true)
    (next : l.tighter? = some l') {ts rest : List Token} {e : Expr}
    (h : read l (fuel + 1) ts = .ok (e, rest)) : Took (Derives l) ts e rest := by
  rw [read_repeats repeats next] at h
  obtain ⟨⟨left, more⟩, hleft, htail⟩ := Except.bind_eq_ok.mp h
  obtain ⟨front, rfl, dleft⟩ := ih.level hleft
  obtain ⟨used, rfl, d⟩ := ih.tail (.tighter next dleft) htail
  exact ⟨front ++ used, (List.append_assoc ..).symm, d⟩

theorem level_fronts (ih : Sound fuel) {l l' : Level} (fronts : l = .not ∨ l = .signed)
    (next : l.tighter? = some l') {ts rest : List Token} {e : Expr}
    (h : read l (fuel + 1) ts = .ok (e, rest)) : Took (Derives l) ts e rest := by
  have unfronted (front : ∀ t ∈ ts.head?, l.front? t = none) : Took (Derives l) ts e rest := by
    rw [read_noFront fronts next fuel ts front] at h
    obtain ⟨used, rfl, d⟩ := ih.level h
    exact ⟨used, rfl, .tighter next d⟩
  cases ts with
  | nil => exact unfronted (fun t ht => by cases ht)
  | cons t ts =>
      cases front : l.front? t with
      | none => exact unfronted (fun t' ht => by cases ht; exact front)
      | some f =>
          rw [read_front front] at h
          obtain ⟨⟨operand, more⟩, hoperand, hok⟩ := Except.bind_eq_ok.mp h
          cases hok
          obtain ⟨used, rfl, d⟩ := ih.level hoperand
          exact ⟨t :: used, rfl, .fronted front d⟩

theorem level_comparison (ih : Sound fuel) {ts rest : List Token} {e : Expr}
    (h : readComparison (fuel + 1) ts = .ok (e, rest)) : Took (Derives .comparison) ts e rest := by
  unfold readComparison at h
  obtain ⟨⟨first, more⟩, hfirst, h⟩ := Except.bind_eq_ok.mp h
  obtain ⟨⟨links, more'⟩, hlinks, hok⟩ := Except.bind_eq_ok.mp h
  cases hok
  obtain ⟨front, rfl, dfirst⟩ := ih.level (l := .sum) hfirst
  obtain ⟨used, rfl, dlinks⟩ := ih.links hlinks
  refine ⟨front ++ used, (List.append_assoc ..).symm, ?_⟩
  cases dlinks with
  | nil => 
      rw [List.append_nil]
      exact .tighter rfl dfirst
  | cons op operand more => exact .comparison dfirst (.cons op operand more) (List.cons_ne_nil _ _)

theorem level_power (ih : Sound fuel) {ts rest : List Token} {e : Expr}
    (h : readPower (fuel + 1) ts = .ok (e, rest)) : Took (Derives .power) ts e rest := by
  unfold readPower at h
  obtain ⟨⟨base, more⟩, hbase, hmore⟩ := Except.bind_eq_ok.mp h
  obtain ⟨front, rfl, dbase⟩ := ih.level (l := .access) hbase
  dsimp only at hmore
  split at hmore
  · obtain ⟨⟨exponent, more'⟩, hexponent, hok⟩ := Except.bind_eq_ok.mp hmore
    cases hok
    obtain ⟨used, rfl, dexponent⟩ := ih.level (l := .signed) hexponent
    exact ⟨front ++ .sign .starStar :: used, by simp, .power dbase dexponent⟩
  · cases hmore
    exact ⟨front, rfl, .tighter rfl dbase⟩

theorem level_atom (ih : Sound fuel) {ts rest : List Token} {e : Expr}
    (h : readPrimary (fuel + 1) ts = .ok (e, rest)) : Took (Derives .atom) ts e rest := by
  cases ts with
  | nil => cases h
  | cons t ts =>
      simp only [readPrimary] at h
      split at h
      -- The eight tokens that stand for themselves come first.
      iterate 8
        · cases h
          exact ⟨[_], rfl, .leaf rfl⟩
      · obtain ⟨⟨inner, more⟩, hinner, h⟩ := Except.bind_eq_ok.mp h
        obtain ⟨more', hexpect, hok⟩ := Except.bind_eq_ok.mp h
        cases hok
        obtain rfl := expect_eq_ok hexpect
        obtain ⟨used, rfl, d⟩ := ih.level (l := .or) hinner
        exact ⟨.sign .openParen :: (used ++ [.sign .closeParen]), by simp, .parens d⟩
      · obtain ⟨⟨items, more⟩, hitems, hok⟩ := Except.bind_eq_ok.mp h
        cases hok
        obtain ⟨used, rfl, d⟩ := ih.sequence hitems
        exact ⟨.sign .openBracket :: (used ++ [.sign .closeBracket]), by simp, .list d⟩
      · cases h

theorem tail_joined (ih : Sound fuel) {l l' : Level} (next : l.tighter? = some l')
    (haccess : l ≠ .access)
    {front ts rest : List Token} {a e : Expr} (left : Derives l front a)
    (h : readTail l (fuel + 1) a ts = .ok (e, rest)) :
    Took (fun used => Derives l (front ++ used)) ts e rest := by
  cases ts with
  | nil =>
      rw [readTail_nil] at h
      cases h
      exact ⟨[], rfl, by simpa using left⟩
  | cons t ts =>
      cases joint : l.joint? t with
      | none =>
          rw [readTail_noJoint haccess joint] at h
          cases h
          exact ⟨[], rfl, by simpa using left⟩
      | some f =>
          rw [readTail_joint joint next] at h
          obtain ⟨⟨right, more⟩, hright, htail⟩ := Except.bind_eq_ok.mp h
          obtain ⟨used, rfl, dright⟩ := ih.level hright
          obtain ⟨used', rfl, d⟩ := ih.tail (.joined joint next left dright) htail
          exact ⟨t :: (used ++ used'), by simp, by simpa using d⟩

theorem tail_access (ih : Sound fuel) {front ts rest : List Token} {a e : Expr}
    (left : Derives .access front a) (h : readPostfixTail (fuel + 1) a ts = .ok (e, rest)) :
    Took (fun used => Derives .access (front ++ used)) ts e rest := by
  unfold readPostfixTail at h
  split at h
  · contradiction
  · next heq =>
    cases heq
    obtain ⟨⟨place, more⟩, hplace, h⟩ := Except.bind_eq_ok.mp h
    obtain ⟨more', hexpect, htail⟩ := Except.bind_eq_ok.mp h
    obtain rfl := expect_eq_ok hexpect
    obtain ⟨used, rfl, dplace⟩ := ih.level (l := .or) hplace
    obtain ⟨used', rfl, d⟩ := ih.tail (l := .access) (.index left dplace) htail
    refine ⟨.sign .openBracket :: (used ++ [.sign .closeBracket] ++ used'), by simp, ?_⟩
    simpa using d
  · next heq =>
    cases heq
    obtain ⟨⟨args, more⟩, hargs, htail⟩ := Except.bind_eq_ok.mp h
    obtain ⟨used, rfl, dargs⟩ := ih.sequence hargs
    obtain ⟨used', rfl, d⟩ := ih.tail (l := .access) (.call left dargs) htail
    refine ⟨.sign .openParen :: (used ++ [.sign .closeParen] ++ used'), by simp, ?_⟩
    simpa using d
  · cases h
    exact ⟨[], rfl, by simpa using left⟩

theorem links_step (ih : Sound fuel) {ts rest : List Token} {links : List Link}
    (h : readLinks (fuel + 1) ts = .ok (links, rest)) : Took DerivesLinks ts links rest := by
  simp only [readLinks] at h
  split at h
  · cases h
    exact ⟨[], rfl, .nil⟩
  · next op more hop =>
    obtain ⟨⟨operand, more⟩, hoperand, h⟩ := Except.bind_eq_ok.mp h
    obtain ⟨⟨links, more⟩, hlinks, hok⟩ := Except.bind_eq_ok.mp h
    cases hok
    obtain ⟨used, rfl, doperand⟩ := ih.level (l := .sum) hoperand
    obtain ⟨used', rfl, dlinks⟩ := ih.links hlinks
    obtain rfl := compareOp?_eq_some hop
    exact ⟨op.tokens ++ (used ++ used'), by simp, .cons op doperand dlinks⟩

theorem items_step (ih : Sound fuel) {close : Sign} {ts rest : List Token} {es : List Expr}
    (h : readItems (fuel + 1) close ts = .ok (es, rest)) :
    Took DerivesSequence ts es (.sign close :: rest) := by
  simp only [readItems] at h
  obtain ⟨⟨item, more⟩, hitem, hmore⟩ := Except.bind_eq_ok.mp h
  obtain ⟨used, rfl, ditem⟩ := ih.level (l := .or) hitem
  dsimp only at hmore
  split at hmore
  · obtain ⟨⟨items, more⟩, hitems, hok⟩ := Except.bind_eq_ok.mp hmore
    cases hok
    obtain ⟨used', rfl, ditems⟩ := ih.sequence hitems
    exact ⟨used ++ .sign .comma :: used', by simp, .cons ditem ditems⟩
  · obtain ⟨more', hexpect, hok⟩ := Except.bind_eq_ok.mp hmore
    cases hok
    obtain rfl := expect_eq_ok hexpect
    exact ⟨used, rfl, .plain (.one ditem)⟩

theorem sequence_step (ih : Sound fuel) {close : Sign} {ts rest : List Token} {es : List Expr}
    (h : readSequence (fuel + 1) close ts = .ok (es, rest)) :
    Took DerivesSequence ts es (.sign close :: rest) := by
  cases ts with
  | nil => exact ih.items h
  | cons t ts =>
      simp only [readSequence] at h
      split at h
      · next ht =>
        cases h
        obtain rfl := Token.eq_sign_of_isSign ht
        exact ⟨[], rfl, .nil⟩
      · exact ih.items h

end Sound

theorem sound (fuel : Nat) : Sound fuel := by
  induction fuel with
  | zero =>
      refine ⟨?_, ?_, ?_, ?_, ?_⟩
      · intro l ts rest e h
        rw [read_zero] at h
        cases h
      · intro l front ts rest a e left h
        cases l <;> cases h
        all_goals exact ⟨[], rfl, by simpa using left⟩
      · intro ts rest links h
        cases h
      · intro close ts rest es h
        cases h
      · intro close ts rest es h
        cases h
  | succ fuel ih =>
      refine ⟨?_, ?_, ih.links_step, ih.items_step, ih.sequence_step⟩
      · intro l ts rest e h
        cases l with
        | or => exact ih.level_repeats rfl rfl h
        | and => exact ih.level_repeats rfl rfl h
        | not => exact ih.level_fronts (.inl rfl) rfl h
        | comparison => exact ih.level_comparison h
        | sum => exact ih.level_repeats rfl rfl h
        | term => exact ih.level_repeats rfl rfl h
        | signed => exact ih.level_fronts (.inr rfl) rfl h
        | power => exact ih.level_power h
        | access => exact ih.level_repeats rfl rfl h
        | atom => exact ih.level_atom h
      · intro l front ts rest a e left h
        cases l with
        | or => exact ih.tail_joined rfl (by decide) left h
        | and => exact ih.tail_joined rfl (by decide) left h
        | sum => exact ih.tail_joined rfl (by decide) left h
        | term => exact ih.tail_joined rfl (by decide) left h
        | access => exact ih.tail_access left h
        | not | comparison | signed | power | atom =>
            cases h
            exact ⟨[], rfl, by simpa using left⟩

theorem derives_of_parse {ts : List Token} {e : Expr} (h : parse ts = .ok e) :
    Derives .or ts e := by
  unfold parse at h
  split at h
  · cases h
  · split at h
    · cases h
    · next e' hread =>
      cases h
      have hread : read .or (depthBound ts) ts = .ok (e, []) := hread
      obtain ⟨used, rfl, d⟩ := (sound (depthBound ts)).level hread
      rwa [List.append_nil]
    · cases h

end Expr

end Parlance
