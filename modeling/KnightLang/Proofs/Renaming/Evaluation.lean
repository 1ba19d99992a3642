import KnightLang.Proofs.Execution.Applications
import KnightLang.Proofs.Renaming.Actions

/-!
Evaluation does the same under other indices: conversions, the operations of the language one by
one, and applications however deep they may nest.
-/

namespace KnightLang.Renaming

open Machine

/-- An evaluator whose applications do the same under other indices. -/
def Moves (rename : Renaming) (evaluator : Evaluator) : Prop :=
  ∀ node, rename.Commutes rename.value (evaluator.apply node) (evaluator.apply (rename.node node))

namespace Commutes

variable {α : Type} {move : α → α} {rename : Renaming} {evaluator : Evaluator}

theorem tooDeep : rename.Commutes move (Evaluator.tooDeep : Run α) Evaluator.tooDeep := by
  refine observe fun first second renamed => ?_
  rw [show second.maxDepth = first.maxDepth by rw [renamed.aside]]
  exact raise _

theorem operand (node position : Nat) :
    rename.Commutes rename.value (Evaluator.operand node position)
      (Evaluator.operand (rename.node node) position) := by
  refine observe fun first second renamed => ?_
  rw [renamed.arg_eq]
  exact pure _

theorem computed (compute : Bool → Except Reason Int64) :
    rename.Commutes rename.value (do return .number (← Run.ofExcept (compute (← get).checked)))
      (do return .number (← Run.ofExcept (compute (← get).checked))) := by
  refine observe fun first second renamed => ?_
  rw [show second.checked = first.checked by rw [renamed.aside]]
  exact (ofExcept _).bind fun word => pure (Value.number word)

theorem text {action other : Run TextRef} (haction : rename.Commutes rename.textRef action other) :
    rename.Commutes rename.value (do return .string (← action)) (do return .string (← other)) :=
  haction.bind fun text => pure (Value.string text)

theorem prompt : rename.Commutes rename.value Evaluator.prompt Evaluator.prompt := by
  refine flush.bind fun _ => (askWorld World.readLine).bind fun line => ?_
  cases line with
  | done => exact pure Value.null
  | failed text => exact raiseBecause _ text
  | line bytes => exact text (intern _)

theorem random : rename.Commutes rename.value Evaluator.random Evaluator.random :=
  drawRandom.bind fun word => pure (Value.number word)

theorem dumpAll (values : List Value) :
    rename.Commutes id (values.mapM Run.dump) ((values.map rename.value).mapM Run.dump) := by
  intro first second renamed
  have htexts : (values.map rename.value).map (second.store.dump second.environment.name) =
      values.map (first.store.dump first.environment.name) := by
    rw [List.map_map]
    exact List.map_congr_left fun value _ => renamed.dump_eq value
  rw [Run.mapM_dump, Run.mapM_dump, htexts]
  exact .ok renamed

variable [custody : Custody] [custody.IsIdle]

theorem block (node : Nat) :
    rename.Commutes rename.value (Evaluator.block node)
      (Evaluator.block (rename.node node)) := by
  refine (operand node 0).bind fun value => ?_
  simp only [Run.retain_of_isIdle]
  exact pure value

/-! ### Conversions -/

section Conversion

variable (hmoves : rename.Moves evaluator) (value : Value)

include hmoves

theorem run : rename.Commutes rename.value (evaluator.run value)
    (evaluator.run (rename.value value)) := by
  cases value with
  | «variable» cell => exact read cell
  | expr node => exact hmoves node
  | null | boolean flag | number word | string text =>
      simp only [Renaming.value, Evaluator.run, Run.retain_of_isIdle]
      exact pure _

theorem forceWithin (steps : Nat) :
    rename.Commutes rename.value (evaluator.forceWithin steps value)
      (evaluator.forceWithin steps (rename.value value)) := by
  induction steps generalizing value with
  | zero =>
      unfold Evaluator.forceWithin
      simp only [isLiteral_value, Run.release_of_isIdle]
      exact ite (pure value) tooDeep
  | succ steps ih =>
      unfold Evaluator.forceWithin
      simp only [isLiteral_value, Run.concluding_of_isIdle]
      exact ite (pure value) ((run hmoves value).bind fun next => ih next)

theorem force : rename.Commutes rename.value (evaluator.force value)
    (evaluator.force (rename.value value)) := by
  unfold Evaluator.force
  simp only [Run.retain_of_isIdle]
  exact forceWithin hmoves value evaluator.budget

theorem withLiteral {action other : Value → Run α}
    (haction : ∀ literal, rename.Commutes move (action literal) (other (rename.value literal))) :
    rename.Commutes move (evaluator.withLiteral value action)
      (evaluator.withLiteral (rename.value value) other) := by
  unfold Evaluator.withLiteral
  simp only [isLiteral_value, Run.deferring_of_isIdle]
  exact ite (haction value) ((force hmoves value).bind haction)

theorem toBoolean : rename.Commutes id (evaluator.toBoolean value)
    (evaluator.toBoolean (rename.value value)) := by
  refine withLiteral hmoves value fun literal => observe fun first second renamed => ?_
  rw [renamed.literalBoolean_eq]
  exact pure _

theorem toNumber : rename.Commutes id (evaluator.toNumber value)
    (evaluator.toNumber (rename.value value)) := by
  refine withLiteral hmoves value fun literal => observe fun first second renamed => ?_
  rw [renamed.literalNumber_eq]
  exact pure _

theorem toText : rename.Commutes rename.textRef (evaluator.toText value)
    (evaluator.toText (rename.value value)) :=
  withLiteral hmoves value literalText

theorem withText {action other : TextRef → Run α}
    (haction : ∀ text, rename.Commutes move (action text) (other (rename.textRef text))) :
    rename.Commutes move (evaluator.withText value action)
      (evaluator.withText (rename.value value) other) := by
  unfold Evaluator.withText
  simp only [Run.deferring_of_isIdle]
  exact (toText hmoves value).bind haction

theorem withResult {action other : Value → Run α}
    (haction : ∀ result, rename.Commutes move (action result) (other (rename.value result))) :
    rename.Commutes move (evaluator.withResult value action)
      (evaluator.withResult (rename.value value) other) := by
  unfold Evaluator.withResult
  simp only [Run.deferring_of_isIdle]
  exact (run hmoves value).bind haction

theorem compare (other : Value) :
    rename.Commutes id (evaluator.compare value other)
      (evaluator.compare (rename.value value) (rename.value other)) := by
  refine withResult hmoves value fun result => ?_
  cases result with
  | string text =>
      refine withText hmoves other fun text' => observe fun first second renamed => ?_
      simp only [renamed.bytes_eq]
      exact pure _
  | number word => exact (toNumber hmoves other).bind fun number => pure (Ord.compare word number)
  | boolean flag =>
      exact (toBoolean hmoves other).bind fun boolean => pure (Ord.compare flag boolean)
  | null | «variable» cell | expr node => exact raise _

end Conversion

/-! ### Operations -/

section Operation

variable (hmoves : rename.Moves evaluator) (node : Nat)

include hmoves

theorem evaluate (source : Source) (label : Bytes) :
    rename.Commutes rename.value (evaluator.evaluate source label)
      (evaluator.evaluate source label) := by
  refine (parseFrom source label).bind fun result => ?_
  obtain ⟨result, rest⟩ := result
  cases result with
  | ok value =>
      simp only [Except.map, Run.deferring_of_isIdle]
      exact run hmoves value
  | error error => exact throw _

theorem eval : rename.Commutes rename.value (evaluator.eval node)
    (evaluator.eval (rename.node node)) := by
  refine (operand node 0).bind fun value => withText hmoves value fun text => ?_
  refine observe fun first second renamed => ?_
  rw [renamed.bytes_eq]
  exact evaluate hmoves _ _

theorem call : rename.Commutes rename.value (evaluator.call node)
    (evaluator.call (rename.node node)) := by
  refine (operand node 0).bind fun value => (run hmoves value).bind fun result => ?_
  simp only [isLiteral_value, Run.deferring_of_isIdle]
  exact ite (pure result) (run hmoves result)

theorem shell : rename.Commutes rename.value (evaluator.shell node)
    (evaluator.shell (rename.node node)) := by
  refine (operand node 0).bind fun value => withText hmoves value fun command => ?_
  refine observe fun first second renamed => ?_
  rw [renamed.bytes_eq]
  refine (askWorld fun world => world.runCommand (first.store.bytes command)).bind fun result => ?_
  cases result with
  | error failure => exact raiseBecause _ failure
  | ok output => exact text (intern output)

theorem quit : rename.Commutes rename.value (evaluator.quit node)
    (evaluator.quit (rename.node node)) := by
  refine (operand node 0).bind fun value => (toNumber hmoves value).bind fun status => ?_
  exact (log _).bind fun _ => raise _

theorem not : rename.Commutes rename.value (evaluator.not node)
    (evaluator.not (rename.node node)) := by
  refine (operand node 0).bind fun value => (toBoolean hmoves value).bind fun flag => ?_
  exact pure (Value.boolean !flag)

theorem length : rename.Commutes rename.value (evaluator.length node)
    (evaluator.length (rename.node node)) := by
  refine (operand node 0).bind fun value => (toText hmoves value).bind fun text => ?_
  refine observe fun first second renamed => ?_
  rw [renamed.bytes_eq]
  simp only [Run.release_of_isIdle]
  exact pure (Value.number _)

theorem dumping : rename.Commutes rename.value (evaluator.dump node)
    (evaluator.dump (rename.node node)) := by
  refine (operand node 0).bind fun value => (run hmoves value).bind fun result => ?_
  refine (dump result).bind fun bytes => ?_
  simp only [Run.onError_of_isIdle]
  exact (write _).bind fun _ => pure result

theorem output : rename.Commutes rename.value (evaluator.output node)
    (evaluator.output (rename.node node)) := by
  refine (operand node 0).bind fun value => withText hmoves value fun text => ?_
  refine observe fun first second renamed => ?_
  rw [renamed.bytes_eq]
  exact (write _).bind fun _ => pure Value.null

theorem numbers (position : Nat) :
    rename.Commutes id (evaluator.numbers node position)
      (evaluator.numbers (rename.node node) position) := by
  refine (operand node position).bind fun left => (toNumber hmoves left).bind fun first => ?_
  refine (operand node (position + 1)).bind fun right => ?_
  refine (toNumber hmoves right).bind fun second => ?_
  exact pure (first, second)

theorem arithmetic (compute : Bool → Int64 → Int64 → Except Reason Int64) :
    rename.Commutes rename.value (evaluator.arithmetic node compute)
      (evaluator.arithmetic (rename.node node) compute) :=
  (numbers hmoves node 0).bind fun pair => computed fun checked => compute checked pair.1 pair.2

theorem add : rename.Commutes rename.value (evaluator.add node)
    (evaluator.add (rename.node node)) := by
  refine (operand node 0).bind fun value => withResult hmoves value fun left => ?_
  cases left with
  | string front =>
      refine (operand node 1).bind fun right => withText hmoves right fun back => ?_
      exact text (concat front back)
  | null | boolean flag | number word | «variable» cell | expr index =>
      refine (toNumber hmoves _).bind fun first => ?_
      refine (operand node 1).bind fun right => (toNumber hmoves right).bind fun second => ?_
      exact computed fun checked => Arithmetic.add checked first second

theorem multiply : rename.Commutes rename.value (evaluator.multiply node)
    (evaluator.multiply (rename.node node)) := by
  refine (operand node 0).bind fun value => withResult hmoves value fun left => ?_
  cases left with
  | string contents =>
      refine (operand node 1).bind fun right => (toNumber hmoves right).bind fun count => ?_
      exact text (replicate contents count)
  | null | boolean flag | number word | «variable» cell | expr index =>
      refine (toNumber hmoves _).bind fun first => ?_
      refine (operand node 1).bind fun right => (toNumber hmoves right).bind fun second => ?_
      exact computed fun checked => Arithmetic.multiply checked first second

theorem equal : rename.Commutes rename.value (evaluator.equal node)
    (evaluator.equal (rename.node node)) := by
  refine (operand node 0).bind fun value => withResult hmoves value fun left => ?_
  refine (operand node 1).bind fun other => withResult hmoves other fun right => ?_
  refine observe fun first second renamed => ?_
  rw [renamed.equal_eq]
  exact pure (Value.boolean _)

theorem ordered (expected : Ordering) :
    rename.Commutes rename.value (evaluator.ordered node expected)
      (evaluator.ordered (rename.node node) expected) := by
  refine (operand node 0).bind fun left => (operand node 1).bind fun right => ?_
  exact (compare hmoves left right).bind fun order => pure (Value.boolean (order == expected))

theorem shortCircuit (decisive : Bool) :
    rename.Commutes rename.value (evaluator.shortCircuit node decisive)
      (evaluator.shortCircuit (rename.node node) decisive) := by
  refine (operand node 0).bind fun value => (run hmoves value).bind fun left => ?_
  have htest : rename.Commutes id (Run.onError (Run.release left) (evaluator.toBoolean left))
      (Run.onError (Run.release (rename.value left))
        (evaluator.toBoolean (rename.value left))) := by
    simp only [Run.onError_of_isIdle]
    exact toBoolean hmoves left
  refine htest.bind fun flag => ?_
  simp only [Run.release_of_isIdle]
  exact ite (pure left) ((operand node 1).bind fun right => run hmoves right)

theorem seq : rename.Commutes rename.value (evaluator.seq node)
    (evaluator.seq (rename.node node)) := by
  refine (operand node 0).bind fun value => (run hmoves value).bind fun result => ?_
  simp only [Run.release_of_isIdle]
  exact (operand node 1).bind fun other => run hmoves other

theorem target (value : Value) :
    rename.Commutes id (evaluator.target value) (evaluator.target (rename.value value)) := by
  have hnamed : rename.Commutes id (do
      let text ← evaluator.toText value
      let name := (← get).store.bytes text
      if name.isIdentifier then
        let cell ← Run.fetch name
        Run.release (.string text)
        return cell
      else
        Run.release (.string text)
        Run.raise (.notAssignable name)) (do
      let text ← evaluator.toText (rename.value value)
      let name := (← get).store.bytes text
      if name.isIdentifier then
        let cell ← Run.fetch name
        Run.release (.string text)
        return cell
      else
        Run.release (.string text)
        Run.raise (.notAssignable name)) := by
    refine (toText hmoves value).bind fun text => observe fun first second renamed => ?_
    simp only [renamed.bytes_eq, Run.release_of_isIdle]
    exact ite ((fetch _).bind fun cell => pure cell) (raise _)
  cases value with
  | «variable» cell => exact pure cell
  | null | boolean flag | number word | string text | expr index => exact hnamed

theorem assignment : rename.Commutes rename.value (evaluator.assign node)
    (evaluator.assign (rename.node node)) := by
  refine (operand node 0).bind fun value => (target hmoves value).bind fun cell => ?_
  refine (operand node 1).bind fun other => (run hmoves other).bind fun result => ?_
  simp only [Run.retain_of_isIdle]
  exact (assign cell result).bind fun _ => pure result

theorem loop (fuel : Nat) :
    rename.Commutes rename.value (evaluator.loop node fuel)
      (evaluator.loop (rename.node node) fuel) := by
  induction fuel with
  | zero => exact throw _
  | succ fuel ih =>
      refine (operand node 0).bind fun value => (toBoolean hmoves value).bind fun flag => ?_
      refine ite ?_ (pure Value.null)
      refine (operand node 1).bind fun other => (run hmoves other).bind fun result => ?_
      simp only [Run.release_of_isIdle]
      exact ih

theorem conditional : rename.Commutes rename.value (evaluator.conditional node)
    (evaluator.conditional (rename.node node)) := by
  refine (operand node 0).bind fun value => (toBoolean hmoves value).bind fun flag => ?_
  refine ite ?_ ?_
  · exact (operand node 1).bind fun other => run hmoves other
  · exact (operand node 2).bind fun other => run hmoves other

theorem partOf : rename.Commutes rename.value (evaluator.substring node)
    (evaluator.substring (rename.node node)) := by
  refine (operand node 0).bind fun value => withText hmoves value fun contents => ?_
  refine (numbers hmoves node 1).bind fun pair => ?_
  exact text (substring contents pair.1 pair.2)

theorem partSet : rename.Commutes rename.value (evaluator.splice node)
    (evaluator.splice (rename.node node)) := by
  refine (operand node 0).bind fun value => withText hmoves value fun contents => ?_
  refine (numbers hmoves node 1).bind fun pair => ?_
  refine (operand node 3).bind fun other => withText hmoves other fun replacement => ?_
  exact text (splice contents pair.1 pair.2 replacement)

theorem negate : rename.Commutes rename.value (evaluator.negate node)
    (evaluator.negate (rename.node node)) := by
  refine (operand node 0).bind fun value => (toNumber hmoves value).bind fun number => ?_
  exact computed fun checked => Arithmetic.negate checked number

theorem valueOf : rename.Commutes rename.value (evaluator.value node)
    (evaluator.value (rename.node node)) := by
  refine (operand node 0).bind fun value => withText hmoves value fun text => ?_
  refine observe fun first second renamed => ?_
  rw [renamed.bytes_eq]
  exact ite ((fetch _).bind fun cell => read cell) (raise _)

theorem perform (operation : Builtin) :
    rename.Commutes rename.value (evaluator.perform node operation)
      (evaluator.perform (rename.node node) operation) := by
  cases operation with
  | prompt => exact prompt
  | random => exact random
  | eval => exact eval hmoves node
  | block => exact block node
  | call => exact call hmoves node
  | shell => exact shell hmoves node
  | quit => exact quit hmoves node
  | not => exact not hmoves node
  | length => exact length hmoves node
  | dump => exact dumping hmoves node
  | output => exact output hmoves node
  | add => exact add hmoves node
  | subtract => exact arithmetic hmoves node _
  | multiply => exact multiply hmoves node
  | divide => exact arithmetic hmoves node _
  | remainder => exact arithmetic hmoves node fun _ => Arithmetic.remainder
  | power => exact arithmetic hmoves node _
  | equal => exact equal hmoves node
  | less => exact ordered hmoves node .lt
  | greater => exact ordered hmoves node .gt
  | and => exact shortCircuit hmoves node false
  | or => exact shortCircuit hmoves node true
  | seq => exact seq hmoves node
  | assign => exact assignment hmoves node
  | whileLoop => exact loop hmoves node evaluator.fuel
  | conditional => exact conditional hmoves node
  | get => exact partOf hmoves node
  | set => exact partSet hmoves node
  | negate => exact negate hmoves node
  | value => exact valueOf hmoves node

/-! ### Operations of the host -/

theorem sum (arity count : Nat) (total : Int64) :
    rename.Commutes id (evaluator.sum node arity count total)
      (evaluator.sum (rename.node node) arity count total) := by
  induction count generalizing total with
  | zero => exact pure total
  | succ count ih =>
      refine (operand node _).bind fun value => (toNumber hmoves value).bind fun number => ?_
      exact ih (total + number)

theorem performHost (action : HostAction) :
    rename.Commutes rename.value (evaluator.performHost node action)
      (evaluator.performHost (rename.node node) action) := by
  cases action with
  | dump =>
      refine observe fun first second renamed => ?_
      rw [renamed.args_eq]
      exact (dumpAll _).bind fun texts => text (intern (Bytes.joinWith "|" texts))
  | sum =>
      refine observe fun first second renamed => ?_
      simp only [renamed.args_eq, List.length_map]
      exact (sum hmoves node _ _ 0).bind fun total => pure (Value.number total)
  | depth =>
      refine observe fun first second renamed => ?_
      rw [show second.depth = first.depth by rw [renamed.aside]]
      exact pure (Value.number _)
  | fail => exact raise _
  | plain => exact throw _
  | last =>
      refine observe fun first second renamed => ?_
      simp only [renamed.args_eq, List.getLast?_map]
      cases (first.store.args node).getLast? with
      | none => exact pure Value.null
      | some argument => exact run hmoves argument

theorem act (action : Action) :
    rename.Commutes rename.value (evaluator.act node action)
      (evaluator.act (rename.node node) action) := by
  cases action with
  | builtin operation => exact perform hmoves node operation
  | host action => exact performHost hmoves node action

end Operation

end Commutes

/-! ### Applications -/

variable {rename : Renaming} {first second : Machine}

theorem renamed_enter (renamed : Renamed rename first second) (function : Function) :
    Renamed rename (first.enter function) (second.enter function) := by
  obtain ⟨-, henvironment, hstore⟩ := first.enter_contents function
  refine renamed.update hstore henvironment ?_
  rw [renamed.aside]
  unfold enter
  dsimp only
  split_ifs <;> rfl

theorem renamed_leave (renamed : Renamed rename first second) :
    Renamed rename first.leave second.leave :=
  renamed.update rfl rfl (by rw [renamed.aside]; rfl)

variable [custody : Custody] [custody.IsIdle]

theorem commutes_applyWithin (fuel budget : Nat) (node : Nat) :
    rename.Commutes rename.value (Evaluator.applyWithin fuel budget node)
      (Evaluator.applyWithin fuel budget (rename.node node)) := by
  induction budget generalizing node with
  | zero => exact Commutes.tooDeep
  | succ budget ih =>
      intro first second renamed
      have hnode := renamed.node? node
      cases hfound : first.store.node? node with
      | none =>
          rw [hfound, Option.map_none] at hnode
          simp only [Evaluator.applyWithin, hnode, hfound]
          exact .ok renamed
      | some found =>
          rw [hfound, Option.map_some] at hnode
          have hmoves : rename.Moves
              { budget, fuel, apply := Evaluator.applyWithin fuel budget } := ih
          have hact := Commutes.act hmoves node found.function.action _ _
            (renamed_enter renamed found.function)
          simp only [Evaluator.applyWithin, hnode, hfound, Renaming.application]
          generalize Evaluator.act _ node found.function.action _ = result at hact ⊢
          generalize Evaluator.act _ (rename.node node) found.function.action _ = result' at hact ⊢
          cases hact with
          | ok hafter => exact .ok (renamed_leave hafter)
          | @error stop _ _ hafter =>
              cases stop with
              | error error => exact .error (renamed_leave hafter)
              | fault fault => exact .error hafter
              | exhausted => exact .error hafter

theorem moves_within (rename : Renaming) (fuel : Nat) (machine : Machine) :
    rename.Moves (Evaluator.within fuel machine) :=
  commutes_applyWithin fuel _

end KnightLang.Renaming
