import Parlance.Proofs.Expr.Reading

/-!
# What is derived is read

A derivation of a tree is found by the reader of its level, if the tokens behind it do not carry the
tree on. So a list of tokens is read as a tree exactly if the grammar derives the tree from it.
-/

namespace Parlance

namespace Expr

/-! ## The first token of a tree -/

/-- Whether a token can be the first one of a level. -/
def Level.opensWith (l : Level) : Token → Bool
  | .keyword .not => l.rank ≤ Level.not.rank
  | .sign .plus | .sign .minus => l.rank ≤ Level.signed.rank
  | .sign .openParen | .sign .openBracket => true
  | t => t.leaf?.isSome

theorem Level.opensWith_of_tighter {l l' : Level} {t : Token} (next : l.tighter? = some l')
    (h : l'.opensWith t = true) : l.opensWith t = true := by
  have hrank := Level.rank_tighter next
  unfold Level.opensWith at h ⊢
  split <;> simp_all <;> omega

theorem Level.opensWith_of_leaf {t : Token} {e : Expr} (l : Level) (h : t.leaf? = some e) :
    l.opensWith t = true := by
  unfold Level.opensWith
  split <;> simp_all [Token.leaf?]

/-- A first token stands there, and the level opens with it. -/
def Level.Opens (l : Level) (ts : List Token) : Prop :=
  ∃ t us, ts = t :: us ∧ l.opensWith t = true

theorem Level.Opens.append {l : Level} {ts : List Token} (h : l.Opens ts) (more : List Token) :
    l.Opens (ts ++ more) := by
  obtain ⟨t, us, rfl, ht⟩ := h
  exact ⟨t, us ++ more, rfl, ht⟩

theorem Level.Opens.loosen {l l' : Level} {ts : List Token} (h : l'.Opens ts)
    (next : l.tighter? = some l') : l.Opens ts := by
  obtain ⟨t, us, rfl, ht⟩ := h
  exact ⟨t, us, rfl, Level.opensWith_of_tighter next ht⟩

theorem Derives.opens : ∀ {l : Level} {ts : List Token} {e : Expr}, Derives l ts e → l.Opens ts
  | _, _, _, .tighter next h => h.opens.loosen next
  | _, _, _, .or left _ => left.opens.append _
  | _, _, _, .and left _ => left.opens.append _
  | _, _, _, .not _ => ⟨_, _, rfl, rfl⟩
  | _, _, _, .comparison first _ _ => (first.opens.loosen rfl).append _
  | _, _, _, .sum _ left _ => left.opens.append _
  | _, _, _, .term _ left _ => left.opens.append _
  | _, _, _, .signed sign _ => by
    refine ⟨_, _, rfl, ?_⟩
    simp only [signOps, List.mem_cons, Prod.mk.injEq, List.not_mem_nil, or_false] at sign
    rcases sign with ⟨rfl, -⟩ | ⟨rfl, -⟩ <;> rfl
  | _, _, _, .power base _ => (base.opens.loosen rfl).append _
  | _, _, _, .index target _ => target.opens.append _
  | _, _, _, .call callee _ => callee.opens.append _
  | _, _, _, .leaf h => ⟨_, _, rfl, Level.opensWith_of_leaf .atom h⟩
  | _, _, _, .parens _ => ⟨_, _, rfl, rfl⟩
  | _, _, _, .list _ => ⟨_, _, rfl, rfl⟩

theorem Derives.length_pos {l : Level} {ts : List Token} {e : Expr} (h : Derives l ts e) :
    0 < ts.length := by
  obtain ⟨t, us, rfl, -⟩ := h.opens
  exact Nat.succ_pos _

/-- A tree of the next level does not start with an operator of the level. -/
theorem Derives.noFront {l l' : Level} {ts : List Token} {e : Expr} (h : Derives l' ts e)
    (next : l.tighter? = some l') (rest : List Token) :
    ∀ t ∈ (ts ++ rest).head?, l.front? t = none := by
  obtain ⟨t, us, rfl, ht⟩ := h.opens
  intro t' ht'
  cases ht'
  cases front : l.front? t with
  | none => rfl
  | some f =>
      unfold Level.front? at front
      split at front <;> cases front <;> cases next <;> cases ht

/-- The sign that closes a sequence does not start an item of it. -/
theorem Derives.notClose {l : Level} {ts : List Token} {e : Expr} (h : Derives l ts e)
    {close : Sign} (hclose : close = .closeParen ∨ close = .closeBracket) :
    ∃ t us, ts = t :: us ∧ t.isSign close = false := by
  obtain ⟨t, us, rfl, ht⟩ := h.opens
  refine ⟨t, us, rfl, ?_⟩
  cases t with
  | sign s =>
      rcases hclose with rfl | rfl
      · cases s <;> first | rfl | cases ht
      · cases s <;> first | rfl | cases ht
  | _ => rfl

/-! ## The tokens behind a tree -/

/-- The level of the operator that starts the tokens. -/
def level? : List Token → Option Level
  | .keyword .or :: _ => some .or
  | .keyword .and :: _ => some .and
  | .keyword .within :: _ => some .comparison
  | .keyword .not :: .keyword .within :: _ => some .comparison
  | .sign s :: _ =>
    match s with
    | .equal | .notEqual | .less | .lessEqual | .greater | .greaterEqual => some .comparison
    | .plus | .minus => some .sum
    | .star | .slash | .slashSlash | .percent => some .term
    | .starStar => some .power
    | .openParen | .openBracket => some .access
    | .closeParen | .closeBracket | .comma => none
  | _ => none

/-- The tokens carry on nothing that is as tight as a level. -/
def Level.Stops (l : Level) (rest : List Token) : Prop :=
  ∀ l', level? rest = some l' → l'.rank < l.rank

/-- The tokens may stand behind a tree of a level that is not all of its level. -/
def Level.Precedes (l : Level) (rest : List Token) : Prop :=
  ∀ l', level? rest = some l' → l'.rank < l.rank ∨ l.repeats = true ∧ l' = l

theorem Level.Stops.precedes {l : Level} {rest : List Token} (h : l.Stops rest) : l.Precedes rest :=
  fun l' hl' => .inl (h l' hl')

theorem Level.Stops.tighten {l l' : Level} {rest : List Token} (h : l.Stops rest)
    (hrank : l.rank ≤ l'.rank) : l'.Stops rest :=
  fun l'' h'' => Nat.lt_of_lt_of_le (h l'' h'') hrank

/-- Behind a part of a level stands nothing that belongs to the next one. -/
theorem Level.Precedes.stops {l l' : Level} {rest : List Token} (h : l.Precedes rest)
    (next : l.tighter? = some l') : l'.Stops rest := by
  intro l'' h''
  have hrank := Level.rank_tighter next
  rcases h l'' h'' with hlt | ⟨-, rfl⟩ <;> omega

theorem Level.Precedes.stops_self {l : Level} {rest : List Token} (h : l.Precedes rest)
    (hrepeats : l.repeats = false) : l.Stops rest := by
  intro l' hl'
  rcases h l' hl' with hlt | ⟨htrue, -⟩
  · exact hlt
  · rw [hrepeats] at htrue
    cases htrue

theorem level?_of_joint {l : Level} {t : Token} {f : Expr → Expr → Expr}
    (joint : l.joint? t = some f) (ts : List Token) : level? (t :: ts) = some l := by
  unfold Level.joint? at joint
  split at joint <;> cases joint <;> rfl

theorem level?_op (op : CompareOp) (ts : List Token) :
    level? (op.tokens ++ ts) = some .comparison := by
  cases op <;> rfl

theorem compareOp?_op (op : CompareOp) (ts : List Token) :
    compareOp? (op.tokens ++ ts) = some (op, ts) := by
  cases op <;> rfl

theorem Level.Stops.compareOp? {rest : List Token} (h : Level.comparison.Stops rest) :
    compareOp? rest = none := by
  cases hop : Expr.compareOp? rest with
  | none => rfl
  | some r =>
      obtain ⟨op, more⟩ := r
      obtain rfl := compareOp?_eq_some hop
      exact absurd (h _ (level?_op op more)) (Nat.lt_irrefl _)

theorem Level.Stops.readTail {l : Level} {rest : List Token} (h : l.Stops rest) (e : Expr)
    {fuel : Nat} (hfuel : 0 < fuel) : readTail l fuel e rest = .ok (e, rest) := by
  obtain ⟨fuel, rfl⟩ : ∃ n, fuel = n + 1 := ⟨fuel - 1, by omega⟩
  cases rest with
  | nil => exact readTail_nil l fuel e
  | cons t rest =>
      by_cases haccess : l = .access
      · subst haccess
        have hbracket : t ≠ .sign .openBracket := by
          rintro rfl
          exact absurd (h _ rfl) (by decide)
        have hparen : t ≠ .sign .openParen := by
          rintro rfl
          exact absurd (h _ rfl) (by decide)
        cases t with
        | sign s => cases s <;> first | rfl | contradiction
        | _ => rfl
      · cases joint : l.joint? t with
        | none => exact readTail_noJoint haccess joint fuel e rest
        | some f => exact absurd (h _ (level?_of_joint joint rest)) (Nat.lt_irrefl _)

/-- Behind the base of a power, tokens that stop the power stop its exponent too. -/
theorem Level.Stops.signed {rest : List Token} (h : Level.power.Stops rest) :
    Level.signed.Stops rest := by
  intro l hl
  have hlt := h l hl
  have hne : l ≠ .signed := by
    rintro rfl
    unfold level? at hl
    split at hl <;> try cases hl
    split at hl <;> cases hl
  have hrank : l.rank ≠ Level.signed.rank := fun heq => hne (Level.rank_injective heq)
  have hpower : Level.power.rank = Level.signed.rank + 1 := rfl
  omega

/-! ## Every derivation is read -/

/-- How many readers stand between a level and the atoms. -/
def Level.height (l : Level) : Nat :=
  9 - l.rank

theorem Level.height_tighter {l l' : Level} (next : l.tighter? = some l') :
    l.height = l'.height + 1 := by
  have hrank := Level.rank_tighter next
  have hle := Level.rank_le l'
  unfold Level.height
  omega

/-- The reader of a level finds a tree and goes on with the loop of the level. Each token pays for
twelve steps of depth, which is more than any way down to the next token takes. -/
def Found (l : Level) (ts : List Token) (e : Expr) : Prop :=
  ∀ (rest : List Token) (result : Expr × List Token) (least fuel : Nat), l.Precedes rest →
    (∀ k, least ≤ k → readTail l k e rest = .ok result) → 12 * ts.length + l.height ≤ fuel →
    least + 12 * ts.length ≤ fuel + 11 → read l fuel (ts ++ rest) = .ok result

theorem Found.alone {l : Level} {ts rest : List Token} {e : Expr} {fuel : Nat} (h : Found l ts e)
    (stops : l.Stops rest) (hfuel : 12 * ts.length + l.height ≤ fuel) :
    read l fuel (ts ++ rest) = .ok (e, rest) :=
  h rest (e, rest) 1 fuel stops.precedes (fun _ hk => stops.readTail e hk) hfuel (by omega)

theorem Found.of_alone {l : Level} {ts : List Token} {e : Expr} (hrepeats : l.repeats = false)
    (h : ∀ (rest : List Token) (fuel : Nat), l.Stops rest → 12 * ts.length + l.height ≤ fuel →
      read l fuel (ts ++ rest) = .ok (e, rest)) : Found l ts e := by
  intro rest result least fuel precedes tail hfuel _
  have hresult : readTail l least e rest = .ok (e, rest) := by
    cases l <;> first | rfl | cases hrepeats
  rw [← tail least (Nat.le_refl _), hresult]
  exact h rest fuel (precedes.stops_self hrepeats) hfuel

theorem Found.joined {l l' : Level} {t : Token} {f : Expr → Expr → Expr} {ts us : List Token}
    {a b : Expr} (joint : l.joint? t = some f) (next : l.tighter? = some l')
    (repeats : l.repeats = true) (left : Found l ts a) (right : Found l' us b) :
    Found l (ts ++ t :: us) (f a b) := by
  intro rest result least fuel precedes tail hfuel hleast
  have hheight := Level.height_tighter next
  simp only [List.length_append, List.length_cons] at hfuel hleast
  rw [List.append_assoc, List.cons_append]
  -- The left side leaves the operator to the loop, which reads the right side.
  refine left (t :: (us ++ rest)) result (max least (12 * us.length + l'.height) + 1) fuel ?_ ?_
    (by omega) (by omega)
  · intro l'' hl''
    rw [level?_of_joint joint] at hl''
    cases hl''
    exact .inr ⟨repeats, rfl⟩
  · intro k hk
    obtain ⟨k, rfl⟩ : ∃ n, k = n + 1 := ⟨k - 1, by omega⟩
    have hright : read l' k (us ++ rest) = .ok (b, rest) :=
      right.alone (precedes.stops next) (by omega)
    rw [readTail_joint joint next, hright]
    exact tail k (by omega)

theorem Found.fronted {l : Level} {t : Token} {f : Expr → Expr} {ts : List Token} {e : Expr}
    (front : l.front? t = some f) (repeats : l.repeats = false) (operand : Found l ts e) :
    Found l (t :: ts) (f e) := by
  refine .of_alone repeats ?_
  intro rest fuel stops hfuel
  simp only [List.length_cons] at hfuel
  obtain ⟨fuel, rfl⟩ : ∃ n, fuel = n + 1 := ⟨fuel - 1, by omega⟩
  have hoperand : read l fuel (ts ++ rest) = .ok (e, rest) := operand.alone stops (by omega)
  rw [List.cons_append, read_front front, hoperand]
  rfl

/-- A chain of comparisons is found up to tokens that do not go on with it. -/
def FoundLinks (ts : List Token) (links : List Link) : Prop :=
  ∀ (rest : List Token) (fuel : Nat), Level.comparison.Stops rest → 12 * ts.length + 1 ≤ fuel →
    readLinks fuel (ts ++ rest) = .ok (links, rest)

theorem FoundLinks.nil : FoundLinks [] [] := by
  intro rest fuel stops hfuel
  obtain ⟨fuel, rfl⟩ : ∃ n, fuel = n + 1 := ⟨fuel - 1, by omega⟩
  simp only [List.nil_append, readLinks, stops.compareOp?]

theorem DerivesLinks.stops {ts rest : List Token} {links : List Link} (h : DerivesLinks ts links)
    (stops : Level.comparison.Stops rest) : Level.sum.Stops (ts ++ rest) := by
  cases h with
  | nil => exact stops.tighten (by decide)
  | cons op operand more =>
      intro l hl
      rw [List.append_assoc, level?_op] at hl
      cases hl
      decide

theorem FoundLinks.cons {ts us : List Token} {e : Expr} {links : List Link} (op : CompareOp)
    (operand : Found .sum ts e) (derived : DerivesLinks us links) (more : FoundLinks us links) :
    FoundLinks (op.tokens ++ (ts ++ us)) (.mk op e :: links) := by
  intro rest fuel stops hfuel
  have hop : 0 < op.tokens.length := by cases op <;> decide
  simp only [List.length_append] at hfuel
  obtain ⟨fuel, rfl⟩ : ∃ n, fuel = n + 1 := ⟨fuel - 1, by omega⟩
  have hheight : Level.sum.height = 5 := rfl
  have hoperand : read .sum fuel (ts ++ (us ++ rest)) = .ok (e, us ++ rest) :=
    operand.alone (derived.stops stops) (by omega)
  have hmore : readLinks fuel (us ++ rest) = .ok (links, rest) := more rest fuel stops (by omega)
  rw [List.append_assoc, List.append_assoc]
  simp only [readLinks, compareOp?_op]
  rw [show readSum fuel (ts ++ (us ++ rest)) = .ok (e, us ++ rest) from hoperand]
  simp only [bind, Except.bind, hmore]
  rfl

theorem Found.comparison {ts us : List Token} {e : Expr} {links : List Link}
    (first : Found .sum ts e) (derived : DerivesLinks us links) (more : FoundLinks us links)
    (nonempty : links ≠ []) : Found .comparison (ts ++ us) (.compare e links) := by
  refine .of_alone rfl ?_
  intro rest fuel stops hfuel
  have hheights : Level.comparison.height = 6 ∧ Level.sum.height = 5 := ⟨rfl, rfl⟩
  simp only [List.length_append] at hfuel
  obtain ⟨fuel, rfl⟩ : ∃ n, fuel = n + 1 := ⟨fuel - 1, by omega⟩
  have hfirst : readSum fuel (ts ++ (us ++ rest)) = .ok (e, us ++ rest) :=
    first.alone (derived.stops stops) (by omega)
  have hmore : readLinks fuel (us ++ rest) = .ok (links, rest) := more rest fuel stops (by omega)
  have hempty : links.isEmpty = false := List.isEmpty_eq_false_iff.mpr nonempty
  rw [List.append_assoc]
  simp only [read, readComparison, hfirst, bind, Except.bind, hmore, hempty]
  rfl

theorem Found.power {ts us : List Token} {a b : Expr} (base : Found .access ts a)
    (exponent : Found .signed us b) :
    Found .power (ts ++ .sign .starStar :: us) (.binary .power a b) := by
  refine .of_alone rfl ?_
  intro rest fuel stops hfuel
  have hheights : Level.power.height = 2 ∧ Level.access.height = 1 ∧ Level.signed.height = 3 :=
    ⟨rfl, rfl, rfl⟩
  simp only [List.length_append, List.length_cons] at hfuel
  obtain ⟨fuel, rfl⟩ : ∃ n, fuel = n + 1 := ⟨fuel - 1, by omega⟩
  have hstops : Level.access.Stops (.sign .starStar :: (us ++ rest)) := by
    intro l hl
    cases hl
    decide
  have hbase : readPostfix fuel (ts ++ .sign .starStar :: (us ++ rest)) =
      .ok (a, .sign .starStar :: (us ++ rest)) := base.alone hstops (by omega)
  have hexponent : readUnary fuel (us ++ rest) = .ok (b, rest) :=
    exponent.alone stops.signed (by omega)
  rw [List.append_assoc, List.cons_append]
  simp only [read, readPower, hbase, bind, Except.bind, hexponent]
  rfl

/-- A power without an exponent. -/
theorem Found.base {ts : List Token} {e : Expr} (h : Found .access ts e) : Found .power ts e := by
  refine .of_alone rfl ?_
  intro rest fuel stops hfuel
  have hheights : Level.power.height = 2 ∧ Level.access.height = 1 := ⟨rfl, rfl⟩
  obtain ⟨fuel, rfl⟩ : ∃ n, fuel = n + 1 := ⟨fuel - 1, by omega⟩
  have hbase : readPostfix fuel (ts ++ rest) = .ok (e, rest) :=
    h.alone (stops.tighten (by decide)) (by omega)
  simp only [read, readPower, hbase, bind, Except.bind]
  split
  · exact absurd (stops _ rfl) (by decide)
  · rfl

/-- A comparison without an operator. -/
theorem Found.uncompared {ts : List Token} {e : Expr} (h : Found .sum ts e) :
    Found .comparison ts e := by
  refine .of_alone rfl ?_
  intro rest fuel stops hfuel
  have hheights : Level.comparison.height = 6 ∧ Level.sum.height = 5 := ⟨rfl, rfl⟩
  obtain ⟨fuel, rfl⟩ : ∃ n, fuel = n + 1 := ⟨fuel - 1, by omega⟩
  have hfirst : readSum fuel (ts ++ rest) = .ok (e, rest) :=
    h.alone (stops.tighten (by decide)) (by omega)
  have hlinks : readLinks fuel rest = .ok ([], rest) :=
    FoundLinks.nil rest fuel stops (by simp only [List.length_nil]; omega)
  simp only [read, readComparison, hfirst, bind, Except.bind, hlinks]
  rfl

theorem Found.unfronted {l l' : Level} {ts : List Token} {e : Expr}
    (fronts : l = .not ∨ l = .signed) (next : l.tighter? = some l') (derived : Derives l' ts e)
    (h : Found l' ts e) : Found l ts e := by
  have hrepeats : l.repeats = false := by rcases fronts with rfl | rfl <;> rfl
  refine .of_alone hrepeats ?_
  intro rest fuel stops hfuel
  have hheight := Level.height_tighter next
  have hrank := Level.rank_tighter next
  obtain ⟨fuel, rfl⟩ : ∃ n, fuel = n + 1 := ⟨fuel - 1, by omega⟩
  rw [read_noFront fronts next fuel _ (derived.noFront next rest)]
  exact h.alone (stops.tighten (by omega)) (by omega)

theorem Found.unjoined {l l' : Level} {ts : List Token} {e : Expr} (repeats : l.repeats = true)
    (next : l.tighter? = some l') (derived : Derives l' ts e) (h : Found l' ts e) :
    Found l ts e := by
  intro rest result least fuel precedes tail hfuel hleast
  have hheight := Level.height_tighter next
  have hlength := derived.length_pos
  obtain ⟨fuel, rfl⟩ : ∃ n, fuel = n + 1 := ⟨fuel - 1, by omega⟩
  have hread : read l' fuel (ts ++ rest) = .ok (e, rest) :=
    h.alone (precedes.stops next) (by omega)
  rw [read_repeats repeats next, hread]
  exact tail fuel (by omega)

theorem Found.tighter {l l' : Level} {ts : List Token} {e : Expr} (next : l.tighter? = some l')
    (derived : Derives l' ts e) (h : Found l' ts e) : Found l ts e := by
  cases l with
  | or | and | sum | term | access => exact .unjoined rfl next derived h
  | not => exact .unfronted (.inl rfl) next derived h
  | signed => exact .unfronted (.inr rfl) next derived h
  | comparison =>
      cases next
      exact .uncompared h
  | power =>
      cases next
      exact .base h
  | atom => cases next

/-- Items are found up to the sign that closes their sequence. -/
def FoundItems (ts : List Token) (es : List Expr) : Prop :=
  ∀ (close : Sign) (rest : List Token) (fuel : Nat),
    close = .closeParen ∨ close = .closeBracket → 12 * ts.length + 10 ≤ fuel →
    readItems fuel close (ts ++ .sign close :: rest) = .ok (es, rest) ∧
      readItems fuel close (ts ++ .sign .comma :: .sign close :: rest) = .ok (es, rest)

/-- A sequence is found up to the sign that closes it. -/
def FoundSequence (ts : List Token) (es : List Expr) : Prop :=
  ∀ (close : Sign) (rest : List Token) (fuel : Nat),
    close = .closeParen ∨ close = .closeBracket → 12 * ts.length + 11 ≤ fuel →
    readSequence fuel close (ts ++ .sign close :: rest) = .ok (es, rest)

theorem stops_close {close : Sign} (hclose : close = .closeParen ∨ close = .closeBracket)
    (rest : List Token) : Level.or.Stops (.sign close :: rest) := by
  intro l hl
  rcases hclose with rfl | rfl <;> cases hl

theorem stops_comma (rest : List Token) : Level.or.Stops (.sign .comma :: rest) := by
  intro l hl
  cases hl

theorem expect_close (close : Sign) (rest : List Token) :
    expect close (.sign close :: rest) = .ok rest := by
  simp [expect, Token.isSign]

theorem readSequence_close {fuel : Nat} (hfuel : 0 < fuel) (close : Sign) (rest : List Token) :
    readSequence fuel close (.sign close :: rest) = .ok ([], rest) := by
  obtain ⟨fuel, rfl⟩ : ∃ n, fuel = n + 1 := ⟨fuel - 1, by omega⟩
  simp [readSequence, Token.isSign]

theorem FoundItems.one {ts : List Token} {e : Expr} (item : Found .or ts e) :
    FoundItems ts [e] := by
  intro close rest fuel hclose hfuel
  have hheight : Level.or.height = 9 := rfl
  obtain ⟨fuel, rfl⟩ : ∃ n, fuel = n + 1 := ⟨fuel - 1, by omega⟩
  constructor
  · have hitem : readOr fuel (ts ++ .sign close :: rest) = .ok (e, .sign close :: rest) :=
      item.alone (stops_close hclose rest) (by omega)
    simp only [readItems, hitem, bind, Except.bind]
    rcases hclose with rfl | rfl <;> rfl
  · have hitem : readOr fuel (ts ++ .sign .comma :: .sign close :: rest) =
        .ok (e, .sign .comma :: .sign close :: rest) := item.alone (stops_comma _) (by omega)
    have hend : readSequence fuel close (.sign close :: rest) = .ok ([], rest) :=
      readSequence_close (by omega) close rest
    simp only [readItems, hitem, bind, Except.bind, hend]
    rfl

/-- What starts with an item is read as items. -/
theorem readSequence_items {ts rest : List Token} {es : List Expr} (h : DerivesItems ts es)
    {close : Sign} (hclose : close = .closeParen ∨ close = .closeBracket) (fuel : Nat) :
    readSequence (fuel + 1) close (ts ++ rest) = readItems fuel close (ts ++ rest) := by
  obtain ⟨t, us, rfl, ht⟩ : ∃ t us, ts = t :: us ∧ t.isSign close = false := by
    cases h with
    | one item => exact item.notClose hclose
    | more item _ =>
        obtain ⟨t, us, rfl, ht⟩ := item.notClose hclose
        exact ⟨t, _, rfl, ht⟩
  simp only [List.cons_append, readSequence, ht]
  rfl

theorem FoundItems.more {ts us : List Token} {e : Expr} {es : List Expr} (item : Found .or ts e)
    (derived : DerivesItems us es) (more : FoundItems us es) :
    FoundItems (ts ++ .sign .comma :: us) (e :: es) := by
  intro close rest fuel hclose hfuel
  have hheight : Level.or.height = 9 := rfl
  simp only [List.length_append, List.length_cons] at hfuel
  obtain ⟨fuel, rfl⟩ : ∃ n, fuel = n + 1 := ⟨fuel - 1, by omega⟩
  obtain ⟨plain, trailing⟩ := more close rest (fuel - 1) hclose (by omega)
  have hfuel' : fuel = fuel - 1 + 1 := by omega
  have step (behind : List Token)
      (h : readItems (fuel - 1) close (us ++ behind) = .ok (es, rest)) :
      readItems (fuel + 1) close (ts ++ .sign .comma :: us ++ behind) = .ok (e :: es, rest) := by
    have hitem : readOr fuel (ts ++ .sign .comma :: (us ++ behind)) =
        .ok (e, .sign .comma :: (us ++ behind)) := item.alone (stops_comma _) (by omega)
    have hsequence : readSequence fuel close (us ++ behind) = .ok (es, rest) := by
      rw [hfuel', readSequence_items derived hclose, h]
    rw [List.append_assoc, List.cons_append]
    simp only [readItems, hitem, bind, Except.bind, hsequence]
    rfl
  exact ⟨step _ plain, step _ trailing⟩

theorem FoundSequence.nil : FoundSequence [] [] := by
  intro close rest fuel hclose hfuel
  exact readSequence_close (by omega) close rest

theorem FoundSequence.plain {ts : List Token} {es : List Expr} (derived : DerivesItems ts es)
    (items : FoundItems ts es) : FoundSequence ts es := by
  intro close rest fuel hclose hfuel
  obtain ⟨fuel, rfl⟩ : ∃ n, fuel = n + 1 := ⟨fuel - 1, by omega⟩
  rw [readSequence_items derived hclose]
  exact (items close rest fuel hclose (by omega)).1

theorem FoundSequence.trailing {ts : List Token} {es : List Expr} (derived : DerivesItems ts es)
    (items : FoundItems ts es) : FoundSequence (ts ++ [.sign .comma]) es := by
  intro close rest fuel hclose hfuel
  simp only [List.length_append, List.length_cons, List.length_nil] at hfuel
  obtain ⟨fuel, rfl⟩ : ∃ n, fuel = n + 1 := ⟨fuel - 1, by omega⟩
  rw [List.append_assoc, readSequence_items derived hclose]
  exact (items close rest fuel hclose (by omega)).2

/-- An index or a call behind an operand, which the loop takes for a step of its own. -/
theorem Found.extended {ts us : List Token} {a b : Expr} {opening : Sign} {cost : Nat}
    (target : Found .access ts a) (hlevel : ∀ more, level? (.sign opening :: more) = some .access)
    (hcost : cost + 1 ≤ 12 * (us.length + 1))
    (step : ∀ (rest : List Token) (k : Nat), cost ≤ k →
      readTail .access (k + 1) a (.sign opening :: (us ++ rest)) = readTail .access k b rest) :
    Found .access (ts ++ .sign opening :: us) b := by
  intro rest result least fuel precedes tail hfuel hleast
  simp only [List.length_append, List.length_cons] at hfuel hleast
  rw [List.append_assoc, List.cons_append]
  refine target (.sign opening :: (us ++ rest)) result (max least cost + 1) fuel ?_ ?_ (by omega)
    (by omega)
  · intro l hl
    rw [hlevel] at hl
    cases hl
    exact .inr ⟨rfl, rfl⟩
  · intro k hk
    obtain ⟨k, rfl⟩ : ∃ n, k = n + 1 := ⟨k - 1, by omega⟩
    rw [step rest k (by omega)]
    exact tail k (by omega)

theorem Found.index {ts us : List Token} {a b : Expr} (target : Found .access ts a)
    (place : Found .or us b) :
    Found .access (ts ++ .sign .openBracket :: (us ++ [.sign .closeBracket])) (.index a b) := by
  have hheight : Level.or.height = 9 := rfl
  refine @Found.extended ts _ a (.index a b) .openBracket (12 * us.length + 9) target (fun _ => rfl)
    ?_ ?_
  · simp only [List.length_append, List.length_cons, List.length_nil]
    omega
  · intro rest k hk
    have hplace : readOr k (us ++ .sign .closeBracket :: rest) =
        .ok (b, .sign .closeBracket :: rest) :=
      place.alone (stops_close (.inr rfl) rest) (by omega)
    rw [List.append_assoc]
    simp only [readTail, readPostfixTail, List.cons_append, List.nil_append, hplace, bind,
      Except.bind, expect_close]

theorem Found.call {ts us : List Token} {e : Expr} {args : List Expr} (callee : Found .access ts e)
    (sequence : FoundSequence us args) :
    Found .access (ts ++ .sign .openParen :: (us ++ [.sign .closeParen])) (.call e args) := by
  refine @Found.extended ts _ e (.call e args) .openParen (12 * us.length + 11) callee
    (fun _ => rfl) ?_ ?_
  · simp only [List.length_append, List.length_cons, List.length_nil]
    omega
  · intro rest k hk
    have hargs : readSequence k .closeParen (us ++ .sign .closeParen :: rest) = .ok (args, rest) :=
      sequence .closeParen rest k (.inl rfl) hk
    rw [List.append_assoc]
    simp only [readTail, readPostfixTail, List.cons_append, List.nil_append, hargs, bind,
      Except.bind]

theorem Found.leaf {t : Token} {e : Expr} (h : t.leaf? = some e) : Found .atom [t] e := by
  refine .of_alone rfl ?_
  intro rest fuel stops hfuel
  obtain ⟨fuel, rfl⟩ : ∃ n, fuel = n + 1 := ⟨fuel - 1, by simp at hfuel; omega⟩
  unfold Token.leaf? at h
  split at h <;> cases h <;> rfl

theorem Found.parens {ts : List Token} {e : Expr} (inner : Found .or ts e) :
    Found .atom (.sign .openParen :: (ts ++ [.sign .closeParen])) e := by
  refine .of_alone rfl ?_
  intro rest fuel stops hfuel
  have hheight : Level.or.height = 9 := rfl
  simp only [List.length_append, List.length_cons, List.length_nil] at hfuel
  obtain ⟨fuel, rfl⟩ : ∃ n, fuel = n + 1 := ⟨fuel - 1, by omega⟩
  have hinner : readOr fuel (ts ++ .sign .closeParen :: rest) =
      .ok (e, .sign .closeParen :: rest) :=
    inner.alone (stops_close (.inl rfl) rest) (by omega)
  rw [List.cons_append, List.append_assoc]
  simp only [read, readPrimary, List.cons_append, List.nil_append, hinner, bind, Except.bind,
    expect_close]
  rfl

theorem Found.list {ts : List Token} {items : List Expr} (sequence : FoundSequence ts items) :
    Found .atom (.sign .openBracket :: (ts ++ [.sign .closeBracket])) (.list items) := by
  refine .of_alone rfl ?_
  intro rest fuel stops hfuel
  simp only [List.length_append, List.length_cons, List.length_nil] at hfuel
  obtain ⟨fuel, rfl⟩ : ∃ n, fuel = n + 1 := ⟨fuel - 1, by omega⟩
  have hitems : readSequence fuel .closeBracket (ts ++ .sign .closeBracket :: rest) =
      .ok (items, rest) := sequence .closeBracket rest fuel (.inr rfl) (by omega)
  rw [List.cons_append, List.append_assoc]
  simp only [read, readPrimary, List.cons_append, List.nil_append, hitems, bind, Except.bind]
  rfl

theorem joint?_of_sum {s : Sign} {op : BinaryOp} (h : (s, op) ∈ sumOps) :
    Level.sum.joint? (.sign s) = some (.binary op) := by
  simp only [sumOps, List.mem_cons, Prod.mk.injEq, List.not_mem_nil, or_false] at h
  rcases h with ⟨rfl, rfl⟩ | ⟨rfl, rfl⟩ <;> rfl

theorem joint?_of_term {s : Sign} {op : BinaryOp} (h : (s, op) ∈ termOps) :
    Level.term.joint? (.sign s) = some (.binary op) := by
  simp only [termOps, List.mem_cons, Prod.mk.injEq, List.not_mem_nil, or_false] at h
  rcases h with ⟨rfl, rfl⟩ | ⟨rfl, rfl⟩ | ⟨rfl, rfl⟩ | ⟨rfl, rfl⟩ <;> rfl

theorem front?_of_sign {s : Sign} {op : UnaryOp} (h : (s, op) ∈ signOps) :
    Level.signed.front? (.sign s) = some (.unary op) := by
  simp only [signOps, List.mem_cons, Prod.mk.injEq, List.not_mem_nil, or_false] at h
  rcases h with ⟨rfl, rfl⟩ | ⟨rfl, rfl⟩ <;> rfl

mutual

theorem Derives.found : ∀ {l : Level} {ts : List Token} {e : Expr}, Derives l ts e → Found l ts e
  | _, _, _, .tighter next h => .tighter next h h.found
  | _, _, _, .or left right => .joined rfl rfl rfl left.found right.found
  | _, _, _, .and left right => .joined rfl rfl rfl left.found right.found
  | _, _, _, .not operand => .fronted rfl rfl operand.found
  | _, _, _, .comparison first more nonempty => .comparison first.found more more.found nonempty
  | _, _, _, .sum sign left right => .joined (joint?_of_sum sign) rfl rfl left.found right.found
  | _, _, _, .term sign left right => .joined (joint?_of_term sign) rfl rfl left.found right.found
  | _, _, _, .signed sign operand => .fronted (front?_of_sign sign) rfl operand.found
  | _, _, _, .power base exponent => .power base.found exponent.found
  | _, _, _, .index target place => .index target.found place.found
  | _, _, _, .call callee sequence => .call callee.found sequence.found
  | _, _, _, .leaf h => .leaf h
  | _, _, _, .parens inner => .parens inner.found
  | _, _, _, .list sequence => .list sequence.found

theorem DerivesLinks.found : ∀ {ts : List Token} {links : List Link}, DerivesLinks ts links →
    FoundLinks ts links
  | _, _, .nil => .nil
  | _, _, .cons op operand more => .cons op operand.found more more.found

theorem DerivesItems.found : ∀ {ts : List Token} {es : List Expr}, DerivesItems ts es →
    FoundItems ts es
  | _, _, .one item => .one item.found
  | _, _, .more item rest => .more item.found rest rest.found

theorem DerivesSequence.found : ∀ {ts : List Token} {es : List Expr}, DerivesSequence ts es →
    FoundSequence ts es
  | _, _, .nil => .nil
  | _, _, .plain items => .plain items items.found
  | _, _, .trailing items => .trailing items items.found

end

theorem parse_of_derives {ts : List Token} {e : Expr} (h : Derives .or ts e) :
    parse ts = .ok e := by
  have hheight : Level.or.height = 9 := rfl
  have hstops : Level.or.Stops [] := fun l hl => by cases hl
  have hread : read .or (depthBound ts) (ts ++ []) = .ok (e, []) :=
    h.found.alone hstops (by unfold depthBound; omega)
  have hempty : ts.isEmpty = false :=
    List.isEmpty_eq_false_iff.mpr (List.ne_nil_of_length_pos h.length_pos)
  simp only [List.append_nil, read] at hread
  simp only [parse, hempty, hread]
  rfl

/-- A list of tokens is read as a tree exactly if the grammar derives the tree from it. -/
theorem parse_eq_ok {ts : List Token} {e : Expr} : parse ts = .ok e ↔ Derives .or ts e :=
  ⟨derives_of_parse, parse_of_derives⟩

/-- A sign in front of a power is looser than the power. -/
example :
    parse [.sign .minus, .int 2, .sign .starStar, .sign .minus, .int 1] =
      .ok (.unary .negate
        (.binary .power (.literal (.int 2)) (.unary .negate (.literal (.int 1))))) := rfl

end Expr

end Parlance
