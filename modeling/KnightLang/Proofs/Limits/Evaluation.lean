import KnightLang.Proofs.Limits
import KnightLang.Proofs.Limits.Arithmetic

/-!
Evaluation under tighter and under looser limits. Three things are limited: how deep an expression
nests when it is read, how deep applications nest when they run, and how many steps a value takes
to become a literal. Each limit is compared with the looser one where it is tested, and everything
in between does the same on both sides.
-/

namespace KnightLang

theorem Evaluator.evaluate_eq (evaluator : Evaluator) (source : Source) (label : Bytes) :
    evaluator.evaluate source label = (do
      match ((← get).grammar label source.failure).parse source.unread with
      | .ok tree _ =>
        let value ← tree.load
        Run.deferring (Run.release value) (evaluator.run value)
      | .error error scanner =>
        scanner.names.reverse.forM fun name => do let _ ← Run.fetch name
        throw (.error (missingExpression label error))) := by
  simp only [evaluate, Run.parseFrom, bind_assoc]
  congr 1
  funext machine
  cases (machine.grammar label source.failure).parse source.unread with
  | ok tree scanner => simp only [bind_assoc, pure_bind]
  | error error scanner => simp only [bind_assoc, pure_bind]

namespace Relaxation

/-- An evaluator beside one that has at least as much room, on which applications end alike. -/
structure Matches (relaxation : Relaxation) (level : Nat) (first second : Evaluator) : Prop where
  budget_le : first.budget ≤ second.budget
  budget_eq : relaxation.SameDepth → first.budget = second.budget
  fuel_le : relaxation.allowed .whileLoop → first.fuel ≤ second.fuel
  apply : ∀ node ∈ relaxation.area,
    relaxation.AgreeValue level (first.apply node) (second.apply node)

/-- An action that the tighter limits cut off wherever it starts. -/
def CutsOff {α : Type} (relaxation : Relaxation) (action : Run α) : Prop :=
  ∀ machine, relaxation.start.LeadsTo machine →
    ∃ stop after, action machine = .error stop after ∧ relaxation.Cuts stop ∧
      relaxation.start.LeadsTo after

variable {α : Type} {relaxation : Relaxation} {level : Nat} {good : α → Prop}

theorem cutsOff_throw {stop : Stop} (hcuts : relaxation.Cuts stop) :
    relaxation.CutsOff (throw stop : Run α) :=
  fun machine hleads => ⟨stop, machine, rfl, hcuts, hleads⟩

theorem cutsOff_tooDeep (hsame : ¬relaxation.SameDepth) :
    relaxation.CutsOff (Evaluator.tooDeep : Run α) :=
  fun machine hleads => ⟨_, machine, rfl, cuts_depth rfl hsame, hleads⟩

namespace CutsOff

variable {next : Run α}

theorem agree (hcuts : relaxation.CutsOff next) (second : Run α) :
    relaxation.Agree level good next second := by
  intro machine notices beside
  obtain ⟨stop, after, hnext, hstop, hleads⟩ := hcuts machine beside.leads
  rw [hnext]
  exact .cut hstop hleads

theorem release (hcuts : relaxation.CutsOff next) (value : Value) :
    relaxation.CutsOff (do Run.release value; next) := by
  intro machine hleads
  change ∃ stop after, EStateM.bind (Run.release value) (fun _ => next) machine = _ ∧ _
  unfold EStateM.bind
  obtain ⟨store, htrims, hrelease | ⟨fault, hrelease⟩⟩ := Run.release_trims value machine
  · rw [hrelease]
    exact hcuts _ (hleads.step (.trim htrims))
  · rw [hrelease]
    exact ⟨.fault fault, _, rfl, trivial, hleads.step (.trim htrims)⟩

theorem fetchAll (hcuts : relaxation.CutsOff next) (names : List Bytes) :
    relaxation.CutsOff (do
      names.forM fun name => do let _ ← Run.fetch name
      next) := by
  induction names with
  | nil => exact hcuts
  | cons name rest ih => exact fun machine hleads => ih _ (hleads.step (.fetch name))

end CutsOff

theorem checked_of_ne (hne : relaxation.checked ≠ relaxation.start.checked) :
    relaxation.start.checked = true ∧ relaxation.checked = false := by
  have himplies := relaxation.checked_of_checked
  generalize relaxation.checked = loose at hne himplies ⊢
  generalize relaxation.start.checked = tight at hne himplies ⊢
  cases loose with
  | true => exact absurd (himplies rfl).symm hne
  | false => exact ⟨Bool.eq_true_of_not_eq_false hne.symm, rfl⟩

namespace Agree

theorem tooDeep (hsame : relaxation.SameDepth) :
    relaxation.Agree level good Evaluator.tooDeep Evaluator.tooDeep := by
  refine observe fun machine notices beside => ?_
  have hlimit : (relaxation.loosened level machine notices).maxDepth = machine.maxDepth :=
    hsame.2.trans beside.maxDepth.symm
  rw [hlimit]
  exact raise _

section Conversion

variable {first second : Evaluator} {value : Value}

theorem run (hmatches : relaxation.Matches level first second)
    (hvalue : value.Within relaxation.area) :
    relaxation.AgreeValue level (first.run value) (second.run value) := by
  cases value with
  | «variable» cell => exact read cell
  | expr node => exact hmatches.apply node (hvalue node rfl)
  | null | boolean flag | number word | string text =>
      exact (retain _).bind fun _ _ => pure (Value.within_of_isLiteral rfl)

theorem forceWithin (hmatches : relaxation.Matches level first second) {steps more : Nat}
    (hle : steps ≤ more) (heq : relaxation.SameDepth → steps = more)
    (hvalue : value.Within relaxation.area) :
    relaxation.Agree level (fun result => result.isLiteral = true) (first.forceWithin steps value)
      (second.forceWithin more value) := by
  induction steps generalizing more value with
  | zero =>
      rw [Evaluator.forceWithin, Evaluator.forceWithin.eq_def]
      by_cases hliteral : value.isLiteral = true
      · simp only [hliteral, ↓reduceIte]
        exact pure hliteral
      · simp only [hliteral, Bool.false_eq_true, ↓reduceIte]
        -- Out of steps: so is the other side if the limits are the same, else this is a cut.
        by_cases hsame : relaxation.SameDepth
        · obtain rfl := heq hsame
          exact (release value).bind fun _ _ => tooDeep hsame
        · exact ((cutsOff_tooDeep hsame).release value).agree _
  | succ steps ih =>
      obtain ⟨rest, rfl⟩ : ∃ rest, more = rest + 1 := ⟨more - 1, by omega⟩
      rw [Evaluator.forceWithin, Evaluator.forceWithin]
      by_cases hliteral : value.isLiteral = true
      · simp only [hliteral, ↓reduceIte]
        exact pure hliteral
      · simp only [hliteral, Bool.false_eq_true, ↓reduceIte]
        refine (concluding (run hmatches hvalue)).bind fun next hnext => ?_
        exact ih (by omega) (fun hsame => Nat.succ.inj (heq hsame)) hnext

theorem force (hmatches : relaxation.Matches level first second)
    (hvalue : value.Within relaxation.area) :
    relaxation.Agree level (fun result => result.isLiteral = true) (first.force value)
      (second.force value) :=
  (retain value).bind fun _ _ => forceWithin hmatches hmatches.budget_le hmatches.budget_eq hvalue

theorem withLiteral {action action' : Value → Run α}
    (hmatches : relaxation.Matches level first second) (hvalue : value.Within relaxation.area)
    (haction : ∀ literal, relaxation.Agree level good (action literal) (action' literal)) :
    relaxation.Agree level good (first.withLiteral value action)
      (second.withLiteral value action') := by
  refine ite (haction value) ?_
  exact (force hmatches hvalue).bind fun literal _ => deferring (haction literal)

theorem toBoolean (hmatches : relaxation.Matches level first second)
    (hvalue : value.Within relaxation.area) :
    relaxation.Agree level (fun _ => True) (first.toBoolean value) (second.toBoolean value) :=
  withLiteral hmatches hvalue fun _ => observe fun _ _ _ => pure trivial

theorem toNumber (hmatches : relaxation.Matches level first second)
    (hvalue : value.Within relaxation.area) :
    relaxation.Agree level (fun _ => True) (first.toNumber value) (second.toNumber value) :=
  withLiteral hmatches hvalue fun _ => observe fun _ _ _ => pure trivial

theorem toText (hmatches : relaxation.Matches level first second)
    (hvalue : value.Within relaxation.area) :
    relaxation.Agree level (fun _ => True) (first.toText value) (second.toText value) :=
  withLiteral hmatches hvalue fun literal => onStore (Store.trimming_literalText literal)

theorem withText {action action' : TextRef → Run α}
    (hmatches : relaxation.Matches level first second) (hvalue : value.Within relaxation.area)
    (haction : ∀ text, relaxation.Agree level good (action text) (action' text)) :
    relaxation.Agree level good (first.withText value action) (second.withText value action') :=
  (toText hmatches hvalue).bind fun text _ => deferring (haction text)

theorem withResult {action action' : Value → Run α}
    (hmatches : relaxation.Matches level first second) (hvalue : value.Within relaxation.area)
    (haction : ∀ result, result.Within relaxation.area →
      relaxation.Agree level good (action result) (action' result)) :
    relaxation.Agree level good (first.withResult value action) (second.withResult value action') :=
  (run hmatches hvalue).bind fun result hresult => deferring (haction result hresult)

theorem compare {other : Value} (hmatches : relaxation.Matches level first second)
    (hvalue : value.Within relaxation.area) (hother : other.Within relaxation.area) :
    relaxation.Agree level (fun _ => True) (first.compare value other)
      (second.compare value other) := by
  refine withResult hmatches hvalue fun result _ => ?_
  cases result with
  | string text =>
      exact withText hmatches hother fun _ => observe fun _ _ _ => pure trivial
  | number word => exact (toNumber hmatches hother).bind fun _ _ => pure trivial
  | boolean flag => exact (toBoolean hmatches hother).bind fun _ _ => pure trivial
  | null | «variable» cell | expr node => exact raise _

end Conversion

/-! ### Operations -/

section Operation

variable {first second : Evaluator} {node : Nat}

theorem operand (hnode : node ∈ relaxation.area) (position : Nat) :
    relaxation.AgreeValue level
      (Evaluator.operand node position) (Evaluator.operand node position) :=
  observe fun _ _ beside => pure (beside.confined.args hnode position)

theorem number (result : Except Reason Int64) :
    relaxation.AgreeValue level (do return .number (← Run.ofExcept result))
      (do return .number (← Run.ofExcept result)) := by
  cases result with
  | ok word => exact pure (Value.within_of_isLiteral rfl)
  | error reason => exact raise reason

/-- A result of arithmetic that may be checked on one side only. -/
theorem computed {operation : Bool → Except Reason Int64}
    (hloosens : Arithmetic.Loosens operation) :
    relaxation.AgreeValue level
      (do return .number (← Run.ofExcept (operation (← get).checked)))
      (do return .number (← Run.ofExcept (operation (← get).checked))) := by
  refine observe fun machine notices beside => ?_
  have hfirst : machine.checked = relaxation.start.checked := beside.checked
  have hsecond : (relaxation.loosened level machine notices).checked = relaxation.checked := rfl
  rw [hfirst, hsecond]
  by_cases hsame : relaxation.checked = relaxation.start.checked
  · rw [hsame]
    exact number _
  · obtain ⟨hchecked, hunchecked⟩ := checked_of_ne hsame
    rw [hchecked, hunchecked]
    cases hresult : operation true with
    | ok word =>
        rw [hloosens.ok hresult]
        exact number _
    | error reason =>
        rcases hloosens.error hresult with hkind | hother
        · have hcuts : relaxation.Cuts (.error (.raise reason)) := Or.inr ⟨hkind, hsame⟩
          exact (cutsOff_throw hcuts).agree _
        · rw [hother]
          exact number _

theorem prompt :
    relaxation.AgreeValue level Evaluator.prompt Evaluator.prompt := by
  refine flush.bind fun _ _ => ?_
  refine (askWorld World.blind_readLine).bind fun line _ => ?_
  cases line with
  | done => exact pure (Value.within_of_isLiteral rfl)
  | failed text => exact raiseBecause _ _
  | line bytes => exact (intern _).bind fun _ _ => pure (Value.within_of_isLiteral rfl)

theorem random :
    relaxation.AgreeValue level Evaluator.random Evaluator.random :=
  drawRandom.bind fun _ _ => pure (Value.within_of_isLiteral rfl)

theorem block (hnode : node ∈ relaxation.area) :
    relaxation.AgreeValue level (Evaluator.block node) (Evaluator.block node) := by
  refine (operand hnode 0).bind fun value hvalue => ?_
  exact (retain value).bind fun _ _ => pure hvalue

variable (hmatches : relaxation.Matches level first second)

include hmatches

variable (hnode : node ∈ relaxation.area)

/-- A source is read under both limits; only an expression that nests too deep tells them apart. -/
theorem evaluate (source : Source) (label : Bytes) :
    relaxation.AgreeValue level (first.evaluate source label) (second.evaluate source label) := by
  simp only [Evaluator.evaluate_eq]
  refine observe fun machine notices beside => ?_
  have hallowed : ∀ tree : Tree, tree.ComesFrom machine.functions → ∀ function,
      tree.Applies function → function.IsAmong relaxation.allowed := by
    intro tree htree function happlies
    obtain ⟨byte, hfind⟩ := htree function happlies
    exact beside.confined.functions byte function hfind
  have hle : machine.maxDepth.toNat ≤ relaxation.maxDepth.toNat := by
    rw [beside.maxDepth]
    exact Int.toNat_le_toNat relaxation.maxDepth_le
  have hfollows := Scan.expression_follows (machine.grammar label source.failure)
    relaxation.maxDepth hle
  cases hparse : (machine.grammar label source.failure).parse source.unread with
  | ok tree scanner =>
      obtain ⟨hother, htree⟩ := hfollows.ok hparse
      have hsecond : ((relaxation.loosened level machine notices).grammar label
          source.failure).parse source.unread = .ok tree scanner := hother
      simp only [hsecond]
      refine (load tree (hallowed tree htree)).bind fun value hvalue => ?_
      exact deferring (run hmatches hvalue)
  | error error scanner =>
      by_cases hother : ((relaxation.loosened level machine notices).grammar label
          source.failure).parse source.unread = .error error scanner
      · simp only [hother]
        exact (fetchAll _).bind fun _ _ => Agree.error _
      · -- The looser limit does not fail in this way, so the failure is one of depth.
        have hsame : ¬relaxation.SameDepth := by
          intro hsame
          refine hother ?_
          rw [← hparse, Machine.grammar, Machine.grammar, beside.maxDepth, ← hsame.2]
          rfl
        have hdepth : error.kind = .depth := (hfollows.error hparse).resolve_right hother
        have hmissing : Evaluator.missingExpression label error = error := by
          refine if_neg ?_
          rintro rfl
          cases hdepth
        dsimp only
        rw [hmissing]
        exact ((cutsOff_throw (cuts_depth hdepth hsame)).fetchAll _).agree _

include hnode

theorem eval :
    relaxation.AgreeValue level (first.eval node) (second.eval node) := by
  refine (operand hnode 0).bind fun value hvalue => ?_
  refine withText hmatches hvalue fun text => ?_
  exact observe fun _ _ _ => evaluate hmatches _ _

theorem call :
    relaxation.AgreeValue level (first.call node) (second.call node) := by
  refine (operand hnode 0).bind fun value hvalue => ?_
  refine (run hmatches hvalue).bind fun result hresult => ?_
  exact ite (pure hresult) (deferring (run hmatches hresult))

theorem shell :
    relaxation.AgreeValue level (first.shell node) (second.shell node) := by
  refine (operand hnode 0).bind fun value hvalue => ?_
  refine withText hmatches hvalue fun text => ?_
  refine observe fun machine _ _ => ?_
  refine (askWorld (World.blind_runCommand _)).bind fun result _ => ?_
  cases result with
  | error text => exact raiseBecause _ _
  | ok output => exact (intern output).bind fun _ _ => pure (Value.within_of_isLiteral rfl)

theorem quit :
    relaxation.AgreeValue level (first.quit node) (second.quit node) := by
  refine (operand hnode 0).bind fun value hvalue => ?_
  refine (toNumber hmatches hvalue).bind fun status _ => ?_
  exact (log _).bind fun _ _ => raise _

theorem not :
    relaxation.AgreeValue level (first.not node) (second.not node) := by
  refine (operand hnode 0).bind fun value hvalue => ?_
  exact (toBoolean hmatches hvalue).bind fun _ _ => pure (Value.within_of_isLiteral rfl)

theorem length :
    relaxation.AgreeValue level (first.length node) (second.length node) := by
  refine (operand hnode 0).bind fun value hvalue => ?_
  refine (toText hmatches hvalue).bind fun text _ => ?_
  refine observe fun _ _ _ => ?_
  exact (release _).bind fun _ _ => pure (Value.within_of_isLiteral rfl)

theorem dump :
    relaxation.AgreeValue level (first.dump node) (second.dump node) := by
  refine (operand hnode 0).bind fun value hvalue => ?_
  refine (run hmatches hvalue).bind fun result hresult => ?_
  have htext : relaxation.Agree level (fun _ => True) (Run.dump result) (Run.dump result) :=
    observe fun _ _ _ => pure trivial
  refine htext.bind fun text _ => ?_
  exact (onError (write _)).bind fun _ _ => pure hresult

theorem output :
    relaxation.AgreeValue level (first.output node) (second.output node) := by
  refine (operand hnode 0).bind fun value hvalue => ?_
  refine withText hmatches hvalue fun text => ?_
  refine observe fun _ _ _ => ?_
  exact (write _).bind fun _ _ => pure (Value.within_of_isLiteral rfl)

theorem numbers (position : Nat) :
    relaxation.Agree level (fun _ => True) (first.numbers node position)
      (second.numbers node position) := by
  refine (operand hnode position).bind fun left hleft => ?_
  refine (toNumber hmatches hleft).bind fun _ _ => ?_
  refine (operand hnode (position + 1)).bind fun right hright => ?_
  exact (toNumber hmatches hright).bind fun _ _ => pure trivial

theorem arithmetic {operation : Bool → Int64 → Int64 → Except Reason Int64}
    (hloosens : ∀ left right, Arithmetic.Loosens fun checked => operation checked left right) :
    relaxation.AgreeValue level
      (first.arithmetic node operation) (second.arithmetic node operation) :=
  (numbers hmatches hnode 0).bind fun pair _ => computed (hloosens pair.1 pair.2)

theorem add :
    relaxation.AgreeValue level (first.add node) (second.add node) := by
  refine (operand hnode 0).bind fun value hvalue => ?_
  refine withResult hmatches hvalue fun left hleft => ?_
  cases left with
  | string text =>
      refine (operand hnode 1).bind fun right hright => ?_
      refine withText hmatches hright fun other => ?_
      refine (tryOnStore (Store.trimming_concat text other)).bind fun _ _ => ?_
      exact pure (Value.within_of_isLiteral rfl)
  | null | boolean flag | number word | «variable» cell | expr index =>
      refine (toNumber hmatches hleft).bind fun first _ => ?_
      refine (operand hnode 1).bind fun right hright => ?_
      refine (toNumber hmatches hright).bind fun second _ => ?_
      exact computed (Arithmetic.loosens_add first second)

theorem multiply :
    relaxation.AgreeValue level (first.multiply node) (second.multiply node) := by
  refine (operand hnode 0).bind fun value hvalue => ?_
  refine withResult hmatches hvalue fun left hleft => ?_
  cases left with
  | string text =>
      refine (operand hnode 1).bind fun right hright => ?_
      refine (toNumber hmatches hright).bind fun count _ => ?_
      refine (tryOnStore (Store.trimming_replicate text count)).bind fun _ _ => ?_
      exact pure (Value.within_of_isLiteral rfl)
  | null | boolean flag | number word | «variable» cell | expr index =>
      refine (toNumber hmatches hleft).bind fun first _ => ?_
      refine (operand hnode 1).bind fun right hright => ?_
      refine (toNumber hmatches hright).bind fun second _ => ?_
      exact computed (Arithmetic.loosens_multiply first second)

theorem equal :
    relaxation.AgreeValue level (first.equal node) (second.equal node) := by
  refine (operand hnode 0).bind fun value hvalue => ?_
  refine withResult hmatches hvalue fun left _ => ?_
  refine (operand hnode 1).bind fun other hother => ?_
  refine withResult hmatches hother fun right _ => ?_
  exact observe fun _ _ _ => pure (Value.within_of_isLiteral rfl)

theorem ordered (expected : Ordering) :
    relaxation.AgreeValue level (first.ordered node expected) (second.ordered node expected) := by
  refine (operand hnode 0).bind fun left hleft => ?_
  refine (operand hnode 1).bind fun right hright => ?_
  exact (compare hmatches hleft hright).bind fun _ _ => pure (Value.within_of_isLiteral rfl)

theorem shortCircuit (decisive : Bool) :
    relaxation.AgreeValue level
      (first.shortCircuit node decisive) (second.shortCircuit node decisive) := by
  refine (operand hnode 0).bind fun value hvalue => ?_
  refine (run hmatches hvalue).bind fun left hleft => ?_
  refine (onError (toBoolean hmatches hleft)).bind fun flag _ => ?_
  refine ite (pure hleft) ?_
  refine (release left).bind fun _ _ => ?_
  exact (operand hnode 1).bind fun other hother => run hmatches hother

theorem seq :
    relaxation.AgreeValue level (first.seq node) (second.seq node) := by
  refine (operand hnode 0).bind fun value hvalue => ?_
  refine (run hmatches hvalue).bind fun result _ => ?_
  refine (release result).bind fun _ _ => ?_
  exact (operand hnode 1).bind fun other hother => run hmatches hother

omit hnode in
theorem target {value : Value} (hvalue : value.Within relaxation.area) :
    relaxation.Agree level (fun _ => True) (first.target value) (second.target value) := by
  cases value with
  | «variable» cell => exact pure trivial
  | null | boolean flag | number word | string text | expr index =>
      refine (toText hmatches hvalue).bind fun text _ => ?_
      refine observe fun _ _ _ => ?_
      refine ite ?_ ?_
      · refine (fetch _).bind fun cell _ => ?_
        exact (release _).bind fun _ _ => pure trivial
      · exact (release _).bind fun _ _ => raise _

theorem assignment :
    relaxation.AgreeValue level (first.assign node) (second.assign node) := by
  refine (operand hnode 0).bind fun value hvalue => ?_
  refine (target hmatches hvalue).bind fun cell _ => ?_
  refine (operand hnode 1).bind fun other hother => ?_
  refine (run hmatches hother).bind fun result hresult => ?_
  refine (retain result).bind fun _ _ => ?_
  exact (assign hresult cell).bind fun _ _ => pure hresult

/-- A loop that is to go round at most as often stops no later. -/
theorem loop (hallowed : relaxation.allowed .whileLoop) {fuel more : Nat} (hle : fuel ≤ more) :
    relaxation.AgreeValue level (first.loop node fuel) (second.loop node more) := by
  induction fuel generalizing more with
  | zero =>
      have hcuts : relaxation.Cuts .exhausted := hallowed
      exact (cutsOff_throw hcuts).agree _
  | succ fuel ih =>
      obtain ⟨rest, rfl⟩ : ∃ rest, more = rest + 1 := ⟨more - 1, by omega⟩
      refine (operand hnode 0).bind fun value hvalue => ?_
      refine (toBoolean hmatches hvalue).bind fun flag _ => ?_
      refine ite ?_ (pure (Value.within_of_isLiteral rfl))
      refine (operand hnode 1).bind fun other hother => ?_
      refine (run hmatches hother).bind fun result _ => ?_
      exact (release result).bind fun _ _ => ih (by omega)

theorem conditional :
    relaxation.AgreeValue level (first.conditional node) (second.conditional node) := by
  refine (operand hnode 0).bind fun value hvalue => ?_
  refine (toBoolean hmatches hvalue).bind fun flag _ => ?_
  refine ite ?_ ?_
  · exact (operand hnode 1).bind fun other hother => run hmatches hother
  · exact (operand hnode 2).bind fun other hother => run hmatches hother

theorem substring :
    relaxation.AgreeValue level (first.substring node) (second.substring node) := by
  refine (operand hnode 0).bind fun value hvalue => ?_
  refine withText hmatches hvalue fun text => ?_
  refine (numbers hmatches hnode 1).bind fun pair _ => ?_
  refine (tryOnStore (Store.trimming_substring text pair.1 pair.2)).bind fun _ _ => ?_
  exact pure (Value.within_of_isLiteral rfl)

theorem splice :
    relaxation.AgreeValue level (first.splice node) (second.splice node) := by
  refine (operand hnode 0).bind fun value hvalue => ?_
  refine withText hmatches hvalue fun text => ?_
  refine (numbers hmatches hnode 1).bind fun pair _ => ?_
  refine (operand hnode 3).bind fun other hother => ?_
  refine withText hmatches hother fun replacement => ?_
  refine (tryOnStore (Store.trimming_splice text pair.1 pair.2 replacement)).bind fun _ _ => ?_
  exact pure (Value.within_of_isLiteral rfl)

theorem negate :
    relaxation.AgreeValue level (first.negate node) (second.negate node) := by
  refine (operand hnode 0).bind fun value hvalue => ?_
  exact (toNumber hmatches hvalue).bind fun number _ => computed (Arithmetic.loosens_negate number)

theorem value :
    relaxation.AgreeValue level (first.value node) (second.value node) := by
  refine (operand hnode 0).bind fun value hvalue => ?_
  refine withText hmatches hvalue fun text => ?_
  refine observe fun _ _ _ => ?_
  exact ite ((fetch _).bind fun cell _ => read cell) (raise _)

theorem perform {operation : Builtin} (hallowed : relaxation.allowed operation) :
    relaxation.AgreeValue level (first.perform node operation) (second.perform node operation) := by
  cases operation with
  | prompt => exact prompt
  | random => exact random
  | eval => exact eval hmatches hnode
  | block => exact block hnode
  | call => exact call hmatches hnode
  | shell => exact shell hmatches hnode
  | quit => exact quit hmatches hnode
  | not => exact not hmatches hnode
  | length => exact length hmatches hnode
  | dump => exact dump hmatches hnode
  | output => exact output hmatches hnode
  | add => exact add hmatches hnode
  | subtract => exact arithmetic hmatches hnode Arithmetic.loosens_subtract
  | multiply => exact multiply hmatches hnode
  | divide => exact arithmetic hmatches hnode Arithmetic.loosens_divide
  | remainder => exact arithmetic hmatches hnode fun left right =>
      Arithmetic.loosens_const (Arithmetic.remainder left right)
  | power => exact arithmetic hmatches hnode Arithmetic.loosens_power
  | equal => exact equal hmatches hnode
  | less => exact ordered hmatches hnode .lt
  | greater => exact ordered hmatches hnode .gt
  | and => exact shortCircuit hmatches hnode false
  | or => exact shortCircuit hmatches hnode true
  | seq => exact seq hmatches hnode
  | assign => exact assignment hmatches hnode
  | whileLoop => exact loop hmatches hnode hallowed (hmatches.fuel_le hallowed)
  | conditional => exact conditional hmatches hnode
  | get => exact substring hmatches hnode
  | set => exact splice hmatches hnode
  | negate => exact negate hmatches hnode
  | value => exact value hmatches hnode

theorem act {function : Function} (hamong : function.IsAmong relaxation.allowed) :
    relaxation.AgreeValue level (first.act node function.action)
      (second.act node function.action) := by
  obtain ⟨operation, haction, hallowed⟩ := hamong
  rw [haction]
  exact perform hmatches hnode hallowed

end Operation

/-- Applications end alike if the second may nest at least as deep. -/
theorem applyWithin {fuel more : Nat} (hfuel : relaxation.allowed .whileLoop → fuel ≤ more)
    {budget room : Nat} (hle : budget ≤ room) (heq : relaxation.SameDepth → budget = room)
    {node : Nat} (hnode : node ∈ relaxation.area) :
    relaxation.AgreeValue level (Evaluator.applyWithin fuel budget node)
      (Evaluator.applyWithin more room node) := by
  induction budget generalizing level room node with
  | zero =>
      by_cases hsame : relaxation.SameDepth
      · obtain rfl := heq hsame
        exact tooDeep hsame
      · exact (cutsOff_tooDeep hsame).agree _
  | succ budget ih =>
      obtain ⟨rest, rfl⟩ : ∃ rest, room = rest + 1 := ⟨room - 1, by omega⟩
      -- Inside the application both machines are one level deeper and have less of their budgets.
      have hmatches : relaxation.Matches (level + 1)
          { budget, fuel, apply := Evaluator.applyWithin fuel budget }
          { budget := rest, fuel := more, apply := Evaluator.applyWithin more rest } :=
        { budget_le := by simpa using hle
          budget_eq := fun hsame => Nat.succ.inj (heq hsame)
          fuel_le := hfuel
          apply := fun node hnode => ih (by omega) (fun hsame => Nat.succ.inj (heq hsame)) hnode }
      intro machine notices beside
      unfold Evaluator.applyWithin
      have hstore : (relaxation.loosened level machine notices).store = machine.store := rfl
      rw [hstore]
      cases hfound : machine.store.node? node with
      | none => exact .ok (Value.within_of_isLiteral rfl) beside
      | some found =>
          obtain ⟨function, args, refs⟩ := found
          obtain ⟨hamong, -⟩ := beside.confined.nodes node _ hnode hfound
          obtain ⟨entered, henter, hentered⟩ := beside.enter function
          dsimp only
          rw [henter]
          have halike := act hmatches hnode hamong _ _ hentered
          generalize Evaluator.act _ node function.action (machine.enter function) = result
            at halike ⊢
          generalize Evaluator.act _ node function.action
            (relaxation.loosened (level + 1) (machine.enter function) entered) = result'
            at halike ⊢
          cases halike with
          | ok hvalue hend => exact .ok hvalue hend.leave
          | error hend => exact .error hend.leave
          | @cut stop _ _ hcut hleads =>
              cases stop with
              | error error => exact .cut hcut (hleads.step (.nest _))
              | fault fault => exact .cut hcut hleads
              | exhausted => exact .cut hcut hleads

end Agree

/-- The second machine at the start. -/
def loose (relaxation : Relaxation) : Machine :=
  { relaxation.start with
    depth := relaxation.depth
    maxDepth := relaxation.maxDepth
    checked := relaxation.checked
    world := { relaxation.start.world with notices := relaxation.notices } }

theorem matches_within {fuel more : Nat} (hfuel : relaxation.allowed .whileLoop → fuel ≤ more) :
    relaxation.Matches 0 (Evaluator.within fuel relaxation.start)
      (Evaluator.within more relaxation.loose) := by
  have hdepth := relaxation.depth_le
  have hlimit := relaxation.maxDepth_le
  have hle : (relaxation.start.maxDepth - relaxation.start.depth).toNat ≤
      (relaxation.maxDepth - relaxation.depth).toNat := by omega
  have heq : relaxation.SameDepth → (relaxation.start.maxDepth - relaxation.start.depth).toNat =
      (relaxation.maxDepth - relaxation.depth).toNat := by
    rintro ⟨hsame, hsame'⟩
    rw [hsame, hsame']
  exact
    { budget_le := hle
      budget_eq := heq
      fuel_le := hfuel
      apply := fun node hnode => Agree.applyWithin hfuel hle heq hnode }

/-- Running a value of the area ends alike under the tighter and the looser limits. -/
theorem alike_run (relaxation : Relaxation) {fuel more : Nat}
    (hfuel : relaxation.allowed .whileLoop → fuel ≤ more) {value : Value}
    (hvalue : value.Within relaxation.area) :
    relaxation.Alike 0 (fun result => result.Within relaxation.area)
      ((Evaluator.within fuel relaxation.start).run value relaxation.start)
      ((Evaluator.within more relaxation.loose).run value relaxation.loose) :=
  Agree.run (matches_within hfuel) hvalue _ _ beside_start

theorem alike_evaluate (relaxation : Relaxation) {fuel more : Nat}
    (hfuel : relaxation.allowed .whileLoop → fuel ≤ more) (source : Source) (label : Bytes) :
    relaxation.Alike 0 (fun result => result.Within relaxation.area)
      ((Evaluator.within fuel relaxation.start).evaluate source label relaxation.start)
      ((Evaluator.within more relaxation.loose).evaluate source label relaxation.loose) :=
  Agree.evaluate (matches_within hfuel) source label _ _ beside_start

end Relaxation

end KnightLang
