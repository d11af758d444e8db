import Parlance.Machine.Action
import Parlance.Machine.Loop

/-!
# Running statements

Statements run by recursion on the program text, given a way to run the body of a called function.
That way is tied back to running statements once per nested call, so the fuel of a run counts calls
that are open at the same time; the limit on them makes `maxCallDepth + 1` enough.
-/

namespace Parlance.Exec

/-- The variables of a call: those of the caller, with the parameters bound to the arguments. -/
def frame (scope : Bindings) (params : List String) (args : List Value) : Bindings :=
  (params.zip args).foldl (fun scope pair => scope.set pair.1 pair.2) scope

/-- What a call gives back when its body has ended. -/
def callResult : Flow → Except Halt (Option Value)
  | .normal => .ok none
  | .giveBack .none => .ok none
  | .giveBack v => .ok (some v)
  | .leave => .error (.failed .strayBreak)
  | .next => .error (.failed .strayContinue)

/-- Calls a function. Its body works on a copy of the caller's variables. -/
def call (runBody : Block → Exec Flow) (name : String) (args : List Value) :
    Exec (Option Value) := fun m =>
  match m.functions.get? name with
  | none => (.error (.failed (.undefinedFunction name)), m)
  | some function =>
    if m.settings.maxCallDepth ≤ m.depth then (.error (.failed .callsTooDeep), m)
    else
      let caller := m.vars
      let inside :=
        { m with vars := frame caller function.params args, depth := m.depth + 1 }
      let (outcome, m) := runBody function.body inside
      (outcome >>= callResult, { m with vars := caller, depth := m.depth - 1 })

/-- Reports a failure. -/
def reportError (e : Error) : Exec Unit :=
  report ("Error: " ++ e.message)

mutual

/-- Runs a statement. -/
def statement (runBody : Block → Exec Flow) : Statement → Exec Flow
  | .mk _ action => perform runBody action

/-- Does what a statement says. -/
def perform (runBody : Block → Exec Flow) : Action → Exec Flow
  | .assign name value => do
    assign name value
    return .normal
  | .forget name => do
    forget name
    return .normal
  | .adjust name amount direction => do
    adjust name amount direction
    return .normal
  | .createObject name texts => do
    createObject name texts
    return .normal
  | .changeProperty object amount property direction => do
    changeProperty object amount property direction
    return .normal
  | .transferProperty object source sourceProperty property => do
    transferProperty object source sourceProperty property
    return .normal
  | .question condition yes no =>
    recover
      (do
        if ← holds (Condition.toExpression condition) then block runBody yes
        else block runBody no)
      fun e => do
        reportError e
        return .normal
  | .choose branches => choose runBody branches
  | .define name params body => do
    define ⟨name, params, body⟩
    return .normal
  | .call name args => do
    let values ← arguments args
    match ← call runBody name values with
    | some result => setVar lastResult result
    | none => pure ()
    return .normal
  | .giveBack value => do
    let v ← evaluate value
    return .giveBack v
  | .attempt body handler =>
    recover (block runBody body) fun e =>
      match handler with
      | some handling => do
        setVar errorName (.str e.message)
        block runBody handling
      | none => do
        reportError e
        return .normal
  | .loopWhile condition body => do
    let limit := (← get).settings.maxLoopIterations
    whileLoop (holds (Condition.toExpression condition)) (block runBody body) limit
  | .forEach item iterable body => do
    let v ← evaluate iterable
    forEachLoop item (block runBody body) (elements (← heap) v)
  | .loopTimes count body => do
    let v ← evaluate count
    match repetitions v with
    | .ok times => timesLoop (block runBody body) times.toNat
    | .error e => fail e
  | .append item list => do
    append item list
    return .normal
  | .remove item list => do
    remove item list
    return .normal
  | .ask prompt name => do
    ask prompt name
    return .normal
  | .display value newline => do
    display value newline
    return .normal
  | .writeTo content path => do
    writeTo content path
    return .normal
  | .readInto path name => do
    readInto path name
    return .normal
  | .changeCase value name letters => do
    changeCase value name letters
    return .normal
  | .leave => return .leave
  | .next => return .next
  | .unknown text => do
    report ("Unknown command: " ++ text)
    return .normal

/-- Runs statements one after another, until one of them does not go on normally. -/
def block (runBody : Block → Exec Flow) : List Statement → Exec Flow
  | [] => return .normal
  | s :: rest => do
    match ← statement runBody s with
    | .normal => block runBody rest
    | flow => return flow

/-- Runs the first branch whose condition holds. A failure in a condition or behind one is reported
and ends the choice; a failure behind no condition is passed on. -/
def choose (runBody : Block → Exec Flow) : List Branch → Exec Flow
  | [] => return .normal
  | .mk none body :: _ => block runBody body
  | .mk (some condition) body :: rest => do
    let expression := Condition.toExpression condition
    let outcome ← recover
      (do if ← holds expression then return some (← block runBody body) else return none)
      fun e => do
        report s!"Error evaluating condition '{expression}': {e.message}"
        return some .normal
    match outcome with
    | some flow => return flow
    | none => choose runBody rest

end

/-- Runs statements with so much fuel for nested calls. -/
def blockFuel : Nat → Block → Exec Flow
  | 0, _ => throw .exhausted
  | fuel + 1, b => block (blockFuel fuel) b

/-- Runs a statement with so much fuel for nested calls. -/
def statementFuel (fuel : Nat) (s : Statement) : Exec Flow :=
  statement (blockFuel fuel) s

/-- Calls a function with so much fuel for nested calls. -/
def callFuel (fuel : Nat) (name : String) (args : List Value) : Exec (Option Value) :=
  call (blockFuel fuel) name args

/-- As much fuel as nested calls can use. -/
def enoughFuel : Exec Nat :=
  return (← get).settings.maxCallDepth + 1

/-- Runs statements. -/
def runBlock (b : Block) : Exec Flow := do
  blockFuel (← enoughFuel) b

/-- Runs a statement. -/
def runStatement (s : Statement) : Exec Flow := do
  statementFuel (← enoughFuel) s

/-- Calls a function. -/
def runCall (name : String) (args : List Value) : Exec (Option Value) := do
  callFuel (← enoughFuel) name args

/-- Runs the statements of a program. Each failure is reported and the next statement runs all the
same; giving back a value ends the program. -/
def programFuel (fuel : Nat) : Block → Exec Unit
  | [] => return
  | s :: rest => do
    let flow ← recover (statementFuel fuel s) fun e => do
      reportError e
      return .normal
    match flow with
    | .normal => programFuel fuel rest
    | .giveBack _ => return
    | .leave => do
      reportError .strayBreak
      programFuel fuel rest
    | .next => do
      reportError .strayContinue
      programFuel fuel rest

/-- Runs the statements of a program. -/
def runProgram (b : Block) : Exec Unit := do
  programFuel (← enoughFuel) b

end Parlance.Exec
