import Parlance.Statement.Form
import Parlance.Statement.Line

/-!
# From lines to blocks

A header owns the lines behind it that are indented deeper. Reading a program never fails: a line
that says nothing known becomes a statement that reports itself when it runs.
-/

namespace Parlance

/-- The lines below the two answers to a question. -/
structure Answers where
  yes : List Line := []
  no : List Line := []

namespace Answers

/-- Whose lines are being collected, and how deep their header is indented. -/
inductive Collecting where
  | nothing
  | yes (indent : Nat)
  | no (indent : Nat)

/-- The state behind a line that does not belong to an answer's block. A second block for the same
answer replaces the first, and other lines are passed over. -/
def startLine (line : Line) (answers : Answers) : Collecting × Answers :=
  if Form.opensWith "yes:" line.text then (.yes line.indent, { answers with yes := [] })
  else if Form.opensWith "no:" line.text then (.no line.indent, { answers with no := [] })
  else (.nothing, answers)

/-- Collects the lines below a question. -/
def collect : Collecting → Answers → List Line → Answers
  | _, answers, [] => answers
  | state, answers, line :: rest =>
    match state with
    | .yes indent =>
      if indent < line.indent then collect state { answers with yes := answers.yes ++ [line] } rest
      else
        let (state, answers) := startLine line answers
        collect state answers rest
    | .no indent =>
      if indent < line.indent then collect state { answers with no := answers.no ++ [line] } rest
      else
        let (state, answers) := startLine line answers
        collect state answers rest
    | .nothing =>
      let (state, answers) := startLine line answers
      collect state answers rest

/-- The answers among the lines below a question. -/
def ofLines (lines : List Line) : Answers :=
  collect .nothing {} lines

end Answers

/-- What the header of a further branch says: nothing if it is no such header, and otherwise its
condition and whether it is the last one. -/
def branchHeader? (text : List Char) : Option (Option String × Bool) :=
  if !Text.endsWithChar ':' text then none
  else
    match Form.after? "or when " text with
    | some rest => some (Form.branchCondition rest, false)
    | none => if Form.opensWith "otherwise" text then some (none, true) else none

/-- The further branches of a choice, with the lines of each, and the lines behind the choice. -/
def furtherBranches (base : Nat) : List Line → List (Option String × List Line) × List Line
  | [] => ([], [])
  | line :: rest =>
    if line.indent != base then ([], line :: rest)
    else
      match branchHeader? line.text with
      | none => ([], line :: rest)
      | some (condition, isLast) =>
        let body := Line.deeper base rest
        let behind := Line.beyond base rest
        if isLast then ([(condition, body)], behind)
        else
          let (more, behind) := furtherBranches base behind
          ((condition, body) :: more, behind)
termination_by lines => lines.length
decreasing_by
  have := Line.length_beyond_le base rest
  simp only [List.length_cons]
  omega

/-- The lines of a handler, if one comes next, and the lines behind it. -/
def handler (base : Nat) : List Line → Option (List Line) × List Line
  | [] => (none, [])
  | line :: rest =>
    if line.indent == base && Form.opensWith "handle:" line.text then
      (some (Line.deeper base rest), Line.beyond base rest)
    else
      (none, line :: rest)

namespace Block

/-- Reads statements from lines. Every line is read at most once, so the first argument is never used
up if it is at least the number of lines. -/
def ofLinesFuel : Nat → List Line → Block
  | 0, _ => []
  | _, [] => []
  | fuel + 1, header :: rest =>
    let body := Line.deeper header.indent rest
    let behind := Line.beyond header.indent rest
    match Form.ofLine header.text with
    | .remark => ofLinesFuel fuel rest
    | .simple action => .mk header.number action :: ofLinesFuel fuel rest
    | .question condition =>
      let answers := Answers.ofLines body
      .mk header.number
          (.question condition (ofLinesFuel fuel answers.yes) (ofLinesFuel fuel answers.no)) ::
        ofLinesFuel fuel behind
    | .choose condition =>
      let (more, behind) := furtherBranches header.indent behind
      .mk header.number
          (.choose (((condition, body) :: more).map fun branch =>
            .mk branch.1 (ofLinesFuel fuel branch.2))) ::
        ofLinesFuel fuel behind
    | .attempt =>
      let (handling, behind) := handler header.indent behind
      .mk header.number (.attempt (ofLinesFuel fuel body) (handling.map (ofLinesFuel fuel))) ::
        ofLinesFuel fuel behind
    | .define name params =>
      .mk header.number (.define name params (ofLinesFuel fuel body)) :: ofLinesFuel fuel behind
    | .loopWhile condition =>
      .mk header.number (.loopWhile condition (ofLinesFuel fuel body)) :: ofLinesFuel fuel behind
    | .forEach item iterable =>
      .mk header.number (.forEach item iterable (ofLinesFuel fuel body)) ::
        ofLinesFuel fuel behind
    | .loopTimes count =>
      .mk header.number (.loopTimes count (ofLinesFuel fuel body)) :: ofLinesFuel fuel behind

/-- The statements of some lines. -/
def ofLines (lines : List Line) : Block :=
  ofLinesFuel lines.length lines

/-- The statements of a program. -/
def ofProgram (source : String) : Block :=
  ofLines (Line.ofProgram source.toList)

end Block

end Parlance
