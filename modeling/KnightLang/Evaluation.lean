import KnightLang.Evaluation.Builtins

/-!
Evaluation. Applications nest as deep as the limit allows, and evaluation is by recursion on how
much of it is left; only loops need a bound of their own.
-/

namespace KnightLang

def Machine.enter (machine : Machine) (function : Function) : Machine :=
  let machine := { machine with depth := machine.depth + 1 }
  if machine.trace then
    { machine with
      world := machine.world.log
        { level := .debug, message := "apply"
          fields := [("fn", function.long), ("depth", Bytes.ofNat machine.depth)] } }
  else machine

def Machine.leave (machine : Machine) : Machine := { machine with depth := machine.depth - 1 }

namespace Evaluator

variable [Custody]

def act (evaluator : Evaluator) (node : Nat) : Action → Run Value
  | .builtin operation => evaluator.perform node operation
  | .host action => evaluator.performHost node action

/-- Applies an application with at most `budget` applications inside each other, each loop going
round at most `fuel` times. -/
def applyWithin (fuel : Nat) : Nat → Nat → Run Value
  | 0, _ => tooDeep
  | budget + 1, node => fun machine =>
    match machine.store.node? node with
    | none => .ok .null machine
    | some { function, .. } =>
      match act { budget, fuel, apply := applyWithin fuel budget } node function.action
          (machine.enter function) with
      | .ok value machine => .ok value machine.leave
      | .error (.error error) machine => .error (.error error) machine.leave
      | .error stop machine => .error stop machine

/-- The evaluator of a host that lets loops go round at most `fuel` times. -/
def within (fuel : Nat) (machine : Machine) : Evaluator :=
  let budget := (machine.maxDepth - machine.depth).toNat
  { budget, fuel, apply := applyWithin fuel budget }

end Evaluator

instance : Custody := Custody.counting

end KnightLang
