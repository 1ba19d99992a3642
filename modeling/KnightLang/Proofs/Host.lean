import KnightLang.Proofs.Lockstep.Builtins
import KnightLang.Session

/-!
What a host may ask of a machine. An operation borrows values that the host owns or that are
arguments of what it owns, takes over others, and gives back at most one value, which the host then
owns as well.
-/

namespace KnightLang

/-- What a host asks of a machine. -/
inductive Operation where
  | make (literal : Literal)
  | parse (source : Source) (label : Bytes)
  | evaluate (source : Source) (label : Bytes)
  | run (value : Value)
  | toBoolean (value : Value)
  | toNumber (value : Value)
  | toText (value : Value)
  | compare (left right : Value)
  | concat (first second : TextRef)
  | replicate (text : TextRef) (count : Int64)
  | substring (text : TextRef) (position length : Int64)
  | splice (text : TextRef) (position length : Int64) (replacement : TextRef)
  | newExpr (function : Function) (args : List Value)
  | clone (value : Value)
  | release (value : Value)
  | assign (cell : Nat) (value : Value)
  | read (cell : Nat)
  | reset

inductive Answer where
  | done
  | value (result : Value)
  | boolean (flag : Bool)
  | number (word : Int64)
  | order (order : Ordering)
  deriving DecidableEq, Repr

/-- What the host owns because of an answer. -/
def Answer.owned : Answer → Multiset Value
  | .value result => {result}
  | _ => 0

namespace Operation

def performWith [Custody] (evaluator : Evaluator) : Operation → Run Answer
  | .make literal => return .value (← Session.make literal)
  | .parse source label => return .value (← Run.parse source label)
  | .evaluate source label => return .value (← evaluator.evaluate source label)
  | .run value => return .value (← evaluator.run value)
  | .toBoolean value => return .boolean (← evaluator.toBoolean value)
  | .toNumber value => return .number (← evaluator.toNumber value)
  | .toText value => return .value (.string (← evaluator.toText value))
  | .compare left right => return .order (← evaluator.compare left right)
  | .concat first second =>
    return .value (.string (← Run.tryOnStore (Store.concat first second)))
  | .replicate text count =>
    return .value (.string (← Run.tryOnStore (Store.replicate text count)))
  | .substring text position length =>
    return .value (.string (← Run.tryOnStore (Store.substring text position length)))
  | .splice text position length replacement =>
    return .value (.string (← Run.tryOnStore (Store.splice text position length replacement)))
  | .newExpr function args => return .value (← Session.newExpr function args)
  | .clone value => do
    Run.retain value
    return .value value
  | .release value => do
    Run.release value
    return .done
  | .assign cell value => do
    Run.assign cell value
    return .done
  | .read cell => return .value (← Run.read cell)
  | .reset => do
    Run.reset
    return .done

/-- Performs an operation in which loops go round at most `fuel` times. -/
def perform [Custody] (fuel : Nat) (operation : Operation) : Run Answer := fun machine =>
  operation.performWith (Evaluator.within fuel machine) machine

/-- What is left of what the host owns once an operation has taken over what it is given. -/
def leaves (operation : Operation) (owned : Multiset Value) : Multiset Value :=
  match operation with
  | .newExpr _ args => owned - args
  | .release value | .assign _ value => owned.erase value
  | _ => owned

/-- The host takes part with its own: it gives away only what it owns, and has what it lends kept
alive by what it owns. Any value that is alive may be cloned, also one found in a variable. -/
def Allowed (operation : Operation) (machine : Machine) (owned : Multiset Value) : Prop :=
  match operation with
  | .run value | .toBoolean value | .toNumber value | .toText value => machine.Guards owned value
  | .compare left right => machine.Guards owned left ∧ machine.Guards owned right
  | .concat first second =>
      machine.Guards owned (.string first) ∧ machine.Guards owned (.string second)
  | .replicate text _ | .substring text _ _ => machine.Guards owned (.string text)
  | .splice text _ _ replacement =>
      machine.Guards owned (.string text) ∧ machine.Guards owned (.string replacement)
  | .newExpr function args => (args : Multiset Value) ≤ owned ∧ args.length = function.arity
  | .clone value => machine.Guards (machine.environment.holds + owned) value
  | .release value => value ∈ owned
  | .assign cell value => cell < machine.environment.cells.size ∧ value ∈ owned
  | .make _ | .parse _ _ | .evaluate _ _ | .read _ | .reset => True

end Operation

namespace Run.Lockstep

open Machine

variable {start counting lasting : Machine} {held : Multiset Value}

theorem make (instep : start.InStep held counting lasting) (literal : Literal) :
    Lockstep start held (fun result => {result}) (Session.make literal counting)
      (Session.make literal lasting) := by
  cases literal with
  | null | boolean flag | number word => exact .ok (Lockstep.literal instep rfl rfl)
  | string bytes => exact (intern instep bytes).map fun _ => rfl
  | freshString bytes => exact (addText instep bytes).map fun _ => rfl
  | «variable» name =>
      obtain ⟨cell, after, after', hcounting, hlasting, hcell, hfetched⟩ := instep.fetch name
      exact step hcounting hlasting (.ok (hfetched.hold_cell hcell))

theorem parse (instep : start.InStep held counting lasting) (source : Source) (label : Bytes) :
    Lockstep start held (fun result => {result}) (Run.parse source label counting)
      (Run.parse source label lasting) := by
  refine (parseFrom instep source label).bind fun result counting lasting instep => ?_
  obtain ⟨result, rest⟩ := result
  cases result with
  | ok value => exact .ok instep
  | error error => exact .error (by simpa [parsed] using instep)

/-- Every operation that the host may ask for keeps two machines in step. -/
theorem operation {owned : Multiset Value} (instep : start.InStep owned counting lasting)
    (fuel : Nat) (operation : Operation) (hallowed : operation.Allowed counting owned) :
    Lockstep start (operation.leaves owned) Answer.owned
      (@Operation.perform .counting fuel operation counting)
      (@Operation.perform .lasting fuel operation lasting) := by
  have twins := Evaluator.twins_within fuel instep
  unfold Operation.perform
  cases operation with
  | make literal => exact (make instep literal).map fun _ => rfl
  | parse source label => exact (parse instep source label).map fun _ => rfl
  | evaluate source label => exact (evaluate twins instep source label).map fun _ => rfl
  | run value => exact (run twins instep hallowed).map fun _ => rfl
  | toBoolean value => exact (toBoolean twins instep hallowed).map fun _ => rfl
  | toNumber value => exact (toNumber twins instep hallowed).map fun _ => rfl
  | toText value => exact (toText twins instep hallowed).map fun _ => rfl
  | compare left right =>
      obtain ⟨hleft, hright⟩ := hallowed
      have hcompare := rebase instep (compare twins instep.restart hleft hright)
      exact hcompare.map fun _ => rfl
  | concat first second =>
      obtain ⟨hfirst, hsecond⟩ := hallowed
      exact (concat instep hfirst hsecond).map fun _ => rfl
  | replicate text count => exact (replicate instep hallowed count).map fun _ => rfl
  | substring text position length =>
      exact (substring instep hallowed position length).map fun _ => rfl
  | splice text position length replacement =>
      obtain ⟨htext, hreplacement⟩ := hallowed
      exact (splice instep htext position length hreplacement).map fun _ => rfl
  | newExpr function args =>
      obtain ⟨hargs, harity⟩ := hallowed
      rw [← Multiset.sub_add_cancel hargs, add_comm] at instep
      obtain ⟨value, after, after', hcounting, hlasting, hadded⟩ := instep.addNode function
      simp only [Operation.performWith, Session.newExpr, harity, ↓reduceIte]
      exact step hcounting hlasting (.ok hadded)
  | clone value =>
      obtain ⟨after, hcounting, hlasting, hretained⟩ :=
        instep.retain hallowed (Multiset.Subset.refl _)
      exact step hcounting hlasting (.ok hretained)
  | release value =>
      rw [← Multiset.cons_erase hallowed] at instep
      obtain ⟨after, hcounting, hlasting, hreleased⟩ := instep.release
      rw [← zero_add (owned.erase value)] at hreleased
      exact step hcounting hlasting (.ok hreleased)
  | assign cell value =>
      obtain ⟨hcell, hvalue⟩ := hallowed
      rw [← Multiset.cons_erase hvalue] at instep
      obtain ⟨after, after', hcounting, hlasting, hassigned⟩ := instep.assign hcell
      rw [← zero_add (owned.erase value)] at hassigned
      exact step hcounting hlasting (.ok hassigned)
  | read cell => exact (read instep cell).map fun _ => rfl
  | reset =>
      obtain ⟨after, after', hcounting, hlasting, hemptied⟩ := instep.reset
      rw [← zero_add owned] at hemptied
      exact step hcounting hlasting (.ok hemptied)

end Run.Lockstep

end KnightLang
