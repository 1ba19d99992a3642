import KnightLang.Machine

/-!
Evaluation of a value given how to apply an application, and the conversions built on it. All
values given to these functions are borrowed, and all values they give back are owned by the
caller.
-/

namespace KnightLang

/-- How to evaluate inside an application: how many more applications may nest, how often a loop
may go round, and how to apply an application. -/
structure Evaluator where
  budget : Nat
  fuel : Nat
  apply : Nat → Run Value

namespace Evaluator

variable [Custody]

def tooDeep {α : Type} : Run α := do Run.raise (.evaluationDepth (← get).maxDepth)

/-- Evaluates a value once: a literal to itself, a variable to its value, an application to its
result. -/
def run (evaluator : Evaluator) (value : Value) : Run Value :=
  match value with
  | .variable cell => Run.read cell
  | .expr node => evaluator.apply node
  | _ => do
    Run.retain value
    return value

/-- Evaluates an owned value until it is a literal, in at most the given number of steps. -/
def forceWithin (evaluator : Evaluator) : Nat → Value → Run Value
  | steps, value =>
    if value.isLiteral then return value
    else
      match steps with
      | 0 => do
        Run.release value
        tooDeep
      | steps + 1 => do
        let next ← Run.concluding (Run.release value) (evaluator.run value)
        forceWithin evaluator steps next

def force (evaluator : Evaluator) (value : Value) : Run Value := do
  Run.retain value
  evaluator.forceWithin evaluator.budget value

/-- Evaluates a value to a literal, gives it to an action, and releases it. A literal is given as
it is. -/
@[inline]
def withLiteral {α : Type} (evaluator : Evaluator) (value : Value) (action : Value → Run α) :
    Run α :=
  if value.isLiteral then action value
  else do
    let literal ← evaluator.force value
    Run.deferring (Run.release literal) (action literal)

def toBoolean (evaluator : Evaluator) (value : Value) : Run Bool :=
  evaluator.withLiteral value fun literal => return (← get).store.literalBoolean literal

def toNumber (evaluator : Evaluator) (value : Value) : Run Int64 :=
  evaluator.withLiteral value fun literal => return (← get).store.literalNumber literal

def toText (evaluator : Evaluator) (value : Value) : Run TextRef :=
  evaluator.withLiteral value fun literal => Run.onStore (Store.literalText literal)

/-- Gives the string of a value to an action, and releases it. -/
@[inline]
def withText {α : Type} (evaluator : Evaluator) (value : Value) (action : TextRef → Run α) :
    Run α := do
  let text ← evaluator.toText value
  Run.deferring (Run.release (.string text)) (action text)

/-- Gives the value that a value evaluates to, to an action, and releases it. -/
@[inline]
def withResult {α : Type} (evaluator : Evaluator) (value : Value) (action : Value → Run α) :
    Run α := do
  let result ← evaluator.run value
  Run.deferring (Run.release result) (action result)

/-- Compares what a value evaluates to with another value converted to its kind. -/
def compare (evaluator : Evaluator) (left right : Value) : Run Ordering :=
  evaluator.withResult left fun result =>
    match result with
    | .string text =>
      evaluator.withText right fun other => do
        let store := (← get).store
        return Ord.compare (store.bytes text) (store.bytes other)
    | .number word => return Ord.compare word (← evaluator.toNumber right)
    | .boolean flag => return Ord.compare flag (← evaluator.toBoolean right)
    | _ => Run.raise (.notComparable result.kind)

end Evaluator

end KnightLang
