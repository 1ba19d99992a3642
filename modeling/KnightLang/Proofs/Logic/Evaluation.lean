import KnightLang.Proofs.Logic

/-!
Every logic shows evaluation: conversions, and the operations of the language and of a host one by
one. An operation does its own part, and enters applications only by evaluating its arguments.
-/

namespace KnightLang

theorem Store.arg_of_getElem? {store : Store} {node position : Nat} {value : Value}
    (hargs : (store.args node)[position]? = some value) : store.arg node position = value := by
  unfold Store.args at hargs
  unfold Store.arg
  cases hnode : store.node? node with
  | none => simp [hnode] at hargs
  | some found =>
      rw [hnode] at hargs
      have hfound : found.args[position]? = some value := hargs
      simp [hfound]

/-- What an assignment does once it has the cell. -/
def Evaluator.assignTo (evaluator : Evaluator) (node cell : Nat) : Run Value := do
  let result ← evaluator.run (← operand node 1)
  Run.retain result
  Run.assign cell result
  return result

namespace Logic

variable {budget fuel : Nat} (logic : Logic budget fuel) {α : Type} {good : α → Prop}

/-! ### Conversions -/

section Conversion

variable {value : Value}

theorem run (hmay : logic.may value) :
    logic.Keeps logic.gives fun apply => Evaluator.run { budget, fuel, apply } value := by
  cases value with
  | «variable» cell => exact logic.read cell
  | expr node => exact logic.apply hmay
  | null | boolean flag | number word | string text =>
      exact logic.bind (logic.retain _) fun _ _ => logic.pure (logic.gives_literal rfl)

theorem forceWithin (steps : Nat) (hmay : logic.may value) (hbecomes : logic.becomes steps value) :
    logic.Keeps (fun result => result.isLiteral = true)
      fun apply => Evaluator.forceWithin { budget, fuel, apply } steps value := by
  induction steps generalizing value with
  | zero =>
      simp only [Evaluator.forceWithin]
      refine logic.ite (fun hliteral => logic.pure hliteral) fun hliteral => ?_
      refine logic.bind (logic.release value) fun _ _ => ?_
      refine logic.observe fun machine _ => logic.throw ?_
      exact logic.expects_stuck machine.maxDepth hbecomes (Bool.eq_false_of_not_eq_true hliteral)
  | succ steps ih =>
      simp only [Evaluator.forceWithin]
      refine logic.ite (fun hliteral => logic.pure hliteral) fun _ => ?_
      refine logic.bind (logic.concluding (logic.run hmay)) fun next hnext => ?_
      exact ih (logic.gives_may hnext) (logic.gives_becomes hnext)

theorem force (hmay : logic.may value) (hbecomes : logic.becomes budget value) :
    logic.Keeps (fun result => result.isLiteral = true)
      fun apply => Evaluator.force { budget, fuel, apply } value :=
  logic.bind (logic.retain value) fun _ _ => logic.forceWithin budget hmay hbecomes

theorem withLiteral {plan : Value → Plan α} (hmay : logic.may value)
    (hbecomes : logic.becomes budget value) (hplan : ∀ literal, logic.Keeps good (plan literal)) :
    logic.Keeps good fun apply =>
      Evaluator.withLiteral { budget, fuel, apply } value fun literal => plan literal apply := by
  refine logic.ite (fun _ => hplan value) fun _ => ?_
  exact logic.bind (logic.force hmay hbecomes) fun literal _ => logic.deferring (hplan literal)

theorem toBoolean (hmay : logic.may value) (hbecomes : logic.becomes budget value) :
    logic.KeepsAny fun apply => Evaluator.toBoolean { budget, fuel, apply } value :=
  logic.withLiteral hmay hbecomes fun _ => logic.observe fun _ _ => logic.pure trivial

theorem toNumber (hmay : logic.may value) (hbecomes : logic.becomes budget value) :
    logic.KeepsAny fun apply => Evaluator.toNumber { budget, fuel, apply } value :=
  logic.withLiteral hmay hbecomes fun _ => logic.observe fun _ _ => logic.pure trivial

theorem toText (hmay : logic.may value) (hbecomes : logic.becomes budget value) :
    logic.KeepsAny fun apply => Evaluator.toText { budget, fuel, apply } value :=
  logic.withLiteral hmay hbecomes logic.literalText

theorem withText {plan : TextRef → Plan α} (hmay : logic.may value)
    (hbecomes : logic.becomes budget value) (hplan : ∀ text, logic.Keeps good (plan text)) :
    logic.Keeps good fun apply =>
      Evaluator.withText { budget, fuel, apply } value fun text => plan text apply :=
  logic.bind (logic.toText hmay hbecomes) fun text _ => logic.deferring (hplan text)

theorem withResult {plan : Value → Plan α} (hmay : logic.may value)
    (hplan : ∀ result, logic.gives result → logic.Keeps good (plan result)) :
    logic.Keeps good fun apply =>
      Evaluator.withResult { budget, fuel, apply } value fun result => plan result apply :=
  logic.bind (logic.run hmay) fun result hresult => logic.deferring (hplan result hresult)

theorem compare {other : Value} (hmay : logic.may value) (hother : logic.may other)
    (hbecomes : logic.becomes budget other) :
    logic.KeepsAny fun apply => Evaluator.compare { budget, fuel, apply } value other := by
  refine logic.withResult hmay fun result _ => ?_
  cases result with
  | string text =>
      exact logic.withText hother hbecomes fun _ => logic.observe fun _ _ => logic.pure trivial
  | number word =>
      exact logic.bind (logic.toNumber hother hbecomes) fun _ _ => logic.pure trivial
  | boolean flag =>
      exact logic.bind (logic.toBoolean hother hbecomes) fun _ _ => logic.pure trivial
  | null | «variable» cell | expr node => exact logic.raise trivial nofun

/-- A source is read, and what is read is evaluated. -/
theorem evaluate (heval : logic.allows .eval) (source : Source) (label : Bytes) :
    logic.Keeps logic.gives fun apply =>
      Evaluator.evaluate { budget, fuel, apply } source label := by
  refine logic.bind (logic.parseFrom heval source label) fun result hparsed => ?_
  obtain ⟨result, rest⟩ := result
  cases result with
  | ok value => exact logic.deferring (logic.run hparsed)
  | error error =>
      have hordinary := Evaluator.isOrdinary_missingExpression label hparsed
      exact logic.throw (logic.expects_unread heval hordinary)

end Conversion

/-! ### Operations -/

/-- The arguments of an application may be evaluated, and those at some positions converted. -/
structure Inside (node : Nat) (converts : Nat → Prop) : Prop where
  may : ∀ {machine : Machine} (position : Nat), logic.holds machine →
    logic.may (machine.store.arg node position)
  becomes : ∀ {machine : Machine} {position : Nat}, logic.holds machine → converts position →
    logic.becomes budget (machine.store.arg node position)

theorem computed {compute : Bool → Except Reason Int64}
    (hfails : Arithmetic.FailsOnOperands compute) :
    logic.Keeps logic.gives fun _ =>
      (do return .number (← Run.ofExcept (compute (← get).checked))) := by
  refine logic.observe fun machine _ => ?_
  cases hresult : compute machine.checked with
  | ok word => exact logic.pure (logic.gives_literal rfl)
  | error reason => exact logic.raiseOfOperands (hfails _ _ hresult)

theorem prompt (hallows : logic.allows .prompt) :
    logic.Keeps logic.gives fun _ => Evaluator.prompt := by
  refine logic.bind (flush (logic.acts_of hallows nofun)) fun _ _ => ?_
  refine logic.bind (logic.readLine hallows) fun line _ => ?_
  cases line with
  | done => exact logic.pure (logic.gives_literal rfl)
  | failed text => exact logic.raiseBecause (by exact trivial) (by decide) text
  | line bytes =>
      exact logic.bind (logic.intern _) fun _ _ => logic.pure (logic.gives_literal rfl)

theorem random (hacts : logic.acts) : logic.Keeps logic.gives fun _ => Evaluator.random :=
  logic.bind (logic.drawRandom hacts) fun _ _ => logic.pure (logic.gives_literal rfl)

section Operation

variable {logic} {node : Nat} {converts : Nat → Prop} (hinside : logic.Inside node converts)

include hinside

theorem operand (position : Nat) :
    logic.Keeps logic.may fun _ => Evaluator.operand node position :=
  logic.observe fun _ hholds => logic.pure (hinside.may position hholds)

/-- An argument that is converted. -/
theorem converted {position : Nat} (hconverts : converts position) :
    logic.Keeps (fun value => logic.may value ∧ logic.becomes budget value)
      fun _ => Evaluator.operand node position :=
  logic.observe fun _ hholds =>
    logic.pure ⟨hinside.may position hholds, hinside.becomes hholds hconverts⟩

/-- The last thing that an application does is to evaluate an argument. -/
theorem evaluated (position : Nat) :
    logic.Keeps logic.gives fun apply =>
      (do Evaluator.run { budget, fuel, apply } (← Evaluator.operand node position)) :=
  logic.bind (operand hinside position) fun _ hvalue => logic.run hvalue

theorem eval (heval : logic.allows .eval) :
    logic.Keeps logic.gives fun apply => Evaluator.eval { budget, fuel, apply } node := by
  refine logic.bind (operand hinside 0) fun value hvalue => ?_
  refine logic.withText hvalue (logic.becomes_read heval hvalue) fun text => ?_
  exact logic.observe fun _ _ => logic.evaluate heval _ _

theorem block (hallows : logic.allows .block) :
    logic.Keeps logic.gives fun _ => Evaluator.block node := by
  refine logic.bind (operand hinside 0) fun value hvalue => ?_
  exact logic.bind (logic.retain value) fun _ _ => logic.pure (logic.gives_block hallows hvalue)

theorem call :
    logic.Keeps logic.gives fun apply => Evaluator.call { budget, fuel, apply } node := by
  refine logic.bind (operand hinside 0) fun value hvalue => ?_
  refine logic.bind (logic.run hvalue) fun result hresult => ?_
  refine logic.ite (fun _ => logic.pure hresult) fun _ => ?_
  exact logic.deferring (logic.run (logic.gives_may hresult))

theorem shell (hacts : logic.acts) (hconverts : converts 0) :
    logic.Keeps logic.gives fun apply => Evaluator.shell { budget, fuel, apply } node := by
  refine logic.bind (converted hinside hconverts) fun value ⟨hmay, hbecomes⟩ => ?_
  refine logic.withText hmay hbecomes fun text => logic.observe fun machine _ => ?_
  refine logic.bind (logic.askWorld (fun world => world.runCommand (machine.store.bytes text)) hacts
    fun world => world.quiet_runCommand _) fun result _ => ?_
  cases result with
  | error text => exact logic.raiseBecause (by exact trivial) (by exact nofun) text
  | ok output =>
      exact logic.bind (logic.intern output) fun _ _ => logic.pure (logic.gives_literal rfl)

theorem quit (hallows : logic.allows .quit) (hconverts : converts 0) :
    logic.Keeps logic.gives fun apply => Evaluator.quit { budget, fuel, apply } node := by
  refine logic.bind (converted hinside hconverts) fun value ⟨hmay, hbecomes⟩ => ?_
  refine logic.bind (logic.toNumber hmay hbecomes) fun status _ => ?_
  have hother : ("quit" : Bytes) ≠ "apply" := by decide
  refine logic.bind (log (logic.acts_of hallows nofun) hother) fun _ _ => ?_
  exact logic.throw (logic.expects_quit status hallows)

theorem not (hconverts : converts 0) :
    logic.Keeps logic.gives fun apply => Evaluator.not { budget, fuel, apply } node := by
  refine logic.bind (converted hinside hconverts) fun value ⟨hmay, hbecomes⟩ => ?_
  exact logic.bind (logic.toBoolean hmay hbecomes) fun _ _ => logic.pure (logic.gives_literal rfl)

theorem length (hconverts : converts 0) :
    logic.Keeps logic.gives fun apply => Evaluator.length { budget, fuel, apply } node := by
  refine logic.bind (converted hinside hconverts) fun value ⟨hmay, hbecomes⟩ => ?_
  refine logic.bind (logic.toText hmay hbecomes) fun text _ => ?_
  refine logic.observe fun _ _ => ?_
  exact logic.bind (logic.release _) fun _ _ => logic.pure (logic.gives_literal rfl)

theorem dump (hacts : logic.acts) :
    logic.Keeps logic.gives fun apply => Evaluator.dump { budget, fuel, apply } node := by
  refine logic.bind (operand hinside 0) fun value hvalue => ?_
  refine logic.bind (logic.run hvalue) fun result hresult => ?_
  have htext : logic.KeepsAny fun _ => Run.dump result :=
    logic.observe fun _ _ => logic.pure trivial
  refine logic.bind htext fun text _ => ?_
  exact logic.bind (logic.onError (write hacts _)) fun _ _ => logic.pure hresult

theorem output (hacts : logic.acts) (hconverts : converts 0) :
    logic.Keeps logic.gives fun apply => Evaluator.output { budget, fuel, apply } node := by
  refine logic.bind (converted hinside hconverts) fun value ⟨hmay, hbecomes⟩ => ?_
  refine logic.withText hmay hbecomes fun text => logic.observe fun _ _ => ?_
  exact logic.bind (write hacts _) fun _ _ => logic.pure (logic.gives_literal rfl)

theorem numbers {position : Nat} (hfirst : converts position) (hsecond : converts (position + 1)) :
    logic.KeepsAny fun apply => Evaluator.numbers { budget, fuel, apply } node position := by
  refine logic.bind (converted hinside hfirst) fun left ⟨hleft, hleft'⟩ => ?_
  refine logic.bind (logic.toNumber hleft hleft') fun _ _ => ?_
  refine logic.bind (converted hinside hsecond) fun right ⟨hright, hright'⟩ => ?_
  exact logic.bind (logic.toNumber hright hright') fun _ _ => logic.pure trivial

theorem arithmetic (hfirst : converts 0) (hsecond : converts 1)
    {compute : Bool → Int64 → Int64 → Except Reason Int64}
    (hfails : ∀ left right, Arithmetic.FailsOnOperands fun checked => compute checked left right) :
    logic.Keeps logic.gives fun apply =>
      Evaluator.arithmetic { budget, fuel, apply } node compute :=
  logic.bind (numbers hinside hfirst hsecond) fun pair _ => logic.computed (hfails pair.1 pair.2)

/-- The first argument is converted once it is evaluated, the second when its turn comes. -/
theorem combined {left : Value} (hleft : logic.gives left) (hsecond : converts 1)
    {compute : Bool → Int64 → Int64 → Except Reason Int64}
    (hfails : ∀ left right, Arithmetic.FailsOnOperands fun checked => compute checked left right) :
    logic.Keeps logic.gives fun apply => (do
      let first ← Evaluator.toNumber { budget, fuel, apply } left
      let second ← Evaluator.toNumber { budget, fuel, apply } (← Evaluator.operand node 1)
      return .number (← Run.ofExcept (compute (← get).checked first second))) := by
  refine logic.bind (logic.toNumber (logic.gives_may hleft) (logic.gives_becomes hleft)) ?_
  intro first _
  refine logic.bind (converted hinside hsecond) fun right ⟨hright, hright'⟩ => ?_
  refine logic.bind (logic.toNumber hright hright') fun second _ => ?_
  exact logic.computed (hfails first second)

theorem add (hsecond : converts 1) :
    logic.Keeps logic.gives fun apply => Evaluator.add { budget, fuel, apply } node := by
  refine logic.bind (operand hinside 0) fun value hvalue => ?_
  refine logic.withResult hvalue fun left hleft => ?_
  cases left with
  | string text =>
      refine logic.bind (converted hinside hsecond) fun right ⟨hright, hright'⟩ => ?_
      refine logic.withText hright hright' fun other => ?_
      exact logic.bind (logic.tryConcat text other) fun _ _ => logic.pure (logic.gives_literal rfl)
  | null | boolean flag | number word | «variable» cell | expr index =>
      exact combined hinside hleft hsecond Arithmetic.failsOnOperands_add

theorem multiply (hsecond : converts 1) :
    logic.Keeps logic.gives fun apply => Evaluator.multiply { budget, fuel, apply } node := by
  refine logic.bind (operand hinside 0) fun value hvalue => ?_
  refine logic.withResult hvalue fun left hleft => ?_
  cases left with
  | string text =>
      refine logic.bind (converted hinside hsecond) fun right ⟨hright, hright'⟩ => ?_
      refine logic.bind (logic.toNumber hright hright') fun count _ => ?_
      exact logic.bind (logic.tryReplicate text count) fun _ _ =>
        logic.pure (logic.gives_literal rfl)
  | null | boolean flag | number word | «variable» cell | expr index =>
      exact combined hinside hleft hsecond Arithmetic.failsOnOperands_multiply

theorem equal :
    logic.Keeps logic.gives fun apply => Evaluator.equal { budget, fuel, apply } node := by
  refine logic.bind (operand hinside 0) fun value hvalue => ?_
  refine logic.withResult hvalue fun left _ => ?_
  refine logic.bind (operand hinside 1) fun other hother => ?_
  refine logic.withResult hother fun right _ => ?_
  exact logic.observe fun _ _ => logic.pure (logic.gives_literal rfl)

theorem ordered (hsecond : converts 1) (expected : Ordering) :
    logic.Keeps logic.gives fun apply =>
      Evaluator.ordered { budget, fuel, apply } node expected := by
  refine logic.bind (operand hinside 0) fun left hleft => ?_
  refine logic.bind (converted hinside hsecond) fun right ⟨hright, hright'⟩ => ?_
  exact logic.bind (logic.compare hleft hright hright') fun _ _ =>
    logic.pure (logic.gives_literal rfl)

theorem shortCircuit (decisive : Bool) :
    logic.Keeps logic.gives fun apply =>
      Evaluator.shortCircuit { budget, fuel, apply } node decisive := by
  refine logic.bind (operand hinside 0) fun value hvalue => ?_
  refine logic.bind (logic.run hvalue) fun left hleft => ?_
  have htest := logic.toBoolean (logic.gives_may hleft) (logic.gives_becomes hleft)
  refine logic.bind (logic.onError htest) fun flag _ => ?_
  refine logic.ite (fun _ => logic.pure hleft) fun _ => ?_
  exact logic.bind (logic.release left) fun _ _ => evaluated hinside 1

theorem seq : logic.Keeps logic.gives fun apply => Evaluator.seq { budget, fuel, apply } node := by
  refine logic.bind (operand hinside 0) fun value hvalue => ?_
  refine logic.bind (logic.run hvalue) fun result _ => ?_
  exact logic.bind (logic.release result) fun _ _ => evaluated hinside 1

omit hinside in
/-- The target of an assignment is converted unless it is a variable. -/
theorem target (hacts : logic.acts) {value : Value} (hmay : logic.may value) :
    logic.KeepsAny fun apply => Evaluator.target { budget, fuel, apply } value := by
  have hnamed (hbecomes : logic.becomes budget value) : logic.KeepsAny fun apply => (do
      let text ← Evaluator.toText { budget, fuel, apply } value
      let name := (← get).store.bytes text
      if name.isIdentifier then
        let cell ← Run.fetch name
        Run.release (.string text)
        return cell
      else
        Run.release (.string text)
        Run.raise (.notAssignable name)) := by
    refine logic.bind (logic.toText hmay hbecomes) fun text _ => logic.observe fun machine _ => ?_
    refine logic.ite (fun hname => ?_) fun _ => ?_
    · refine logic.bind (logic.fetch hacts hname) fun cell _ => ?_
      exact logic.bind (logic.release _) fun _ _ => logic.pure trivial
    · exact logic.bind (logic.release _) fun _ _ => logic.raise trivial nofun
  cases value with
  | «variable» cell => exact logic.pure trivial
  | expr index => exact hnamed (logic.becomes_expr hmay)
  | null | boolean flag | number word | string text => exact hnamed (logic.becomes_literal rfl)

theorem assignTo (hacts : logic.acts) (cell : Nat) :
    logic.Keeps logic.gives fun apply =>
      Evaluator.assignTo { budget, fuel, apply } node cell := by
  refine logic.bind (operand hinside 1) fun other hother => ?_
  refine logic.bind (logic.run hother) fun result hresult => ?_
  refine logic.bind (logic.retain result) fun _ _ => ?_
  exact logic.bind (assign hacts hresult cell) fun _ _ => logic.pure hresult

theorem assignment (hacts : logic.acts) :
    logic.Keeps logic.gives fun apply => Evaluator.assign { budget, fuel, apply } node := by
  refine logic.bind (operand hinside 0) fun value hvalue => ?_
  exact logic.bind (target hacts hvalue) fun cell _ => assignTo hinside hacts cell

theorem loop (hconverts : converts 0) (turns : Nat) :
    logic.Keeps logic.gives fun apply => Evaluator.loop { budget, fuel, apply } node turns := by
  induction turns with
  | zero => exact logic.throw (logic.expects_cut trivial)
  | succ turns ih =>
      refine logic.bind (converted hinside hconverts) fun value ⟨hmay, hbecomes⟩ => ?_
      refine logic.bind (logic.toBoolean hmay hbecomes) fun flag _ => ?_
      refine logic.ite (fun _ => ?_) fun _ => logic.pure (logic.gives_literal rfl)
      refine logic.bind (operand hinside 1) fun other hother => ?_
      refine logic.bind (logic.run hother) fun result _ => ?_
      exact logic.bind (logic.release result) fun _ _ => ih

theorem conditional (hconverts : converts 0) :
    logic.Keeps logic.gives fun apply => Evaluator.conditional { budget, fuel, apply } node := by
  refine logic.bind (converted hinside hconverts) fun value ⟨hmay, hbecomes⟩ => ?_
  refine logic.bind (logic.toBoolean hmay hbecomes) fun flag _ => ?_
  exact logic.ite (fun _ => evaluated hinside 1) fun _ => evaluated hinside 2

theorem substring (hconverts : ∀ position ≤ 2, converts position) :
    logic.Keeps logic.gives fun apply => Evaluator.substring { budget, fuel, apply } node := by
  refine logic.bind (converted hinside (hconverts 0 (by decide))) fun value ⟨hmay, hbecomes⟩ => ?_
  refine logic.withText hmay hbecomes fun text => ?_
  refine logic.bind (numbers hinside (hconverts 1 (by decide)) (hconverts 2 le_rfl)) ?_
  intro pair _
  exact logic.bind (logic.trySubstring text pair.1 pair.2) fun _ _ =>
    logic.pure (logic.gives_literal rfl)

theorem splice (hconverts : ∀ position ≤ 3, converts position) :
    logic.Keeps logic.gives fun apply => Evaluator.splice { budget, fuel, apply } node := by
  refine logic.bind (converted hinside (hconverts 0 (by decide))) fun value ⟨hmay, hbecomes⟩ => ?_
  refine logic.withText hmay hbecomes fun text => ?_
  refine logic.bind (numbers hinside (hconverts 1 (by decide)) (hconverts 2 (by decide))) ?_
  intro pair _
  refine logic.bind (converted hinside (hconverts 3 le_rfl)) fun other ⟨hother, hother'⟩ => ?_
  refine logic.withText hother hother' fun replacement => ?_
  exact logic.bind (logic.trySplice text pair.1 pair.2 replacement) fun _ _ =>
    logic.pure (logic.gives_literal rfl)

theorem negate (hconverts : converts 0) :
    logic.Keeps logic.gives fun apply => Evaluator.negate { budget, fuel, apply } node := by
  refine logic.bind (converted hinside hconverts) fun value ⟨hmay, hbecomes⟩ => ?_
  refine logic.bind (logic.toNumber hmay hbecomes) fun number _ => ?_
  exact logic.computed (Arithmetic.failsOnOperands_negate number)

theorem value (hacts : logic.acts) (hconverts : converts 0) :
    logic.Keeps logic.gives fun apply => Evaluator.value { budget, fuel, apply } node := by
  refine logic.bind (converted hinside hconverts) fun value ⟨hmay, hbecomes⟩ => ?_
  refine logic.withText hmay hbecomes fun text => logic.observe fun _ _ => ?_
  refine logic.ite (fun hname => ?_) fun _ => logic.raise trivial nofun
  exact logic.bind (logic.fetch hacts hname) fun cell _ => logic.read cell

end Operation

/-- Whatever operation may be performed is shown. -/
theorem perform {node : Nat} {operation : Builtin} (hallows : logic.allows operation)
    (hinside : logic.Inside node operation.Converts) :
    logic.Keeps logic.gives fun apply =>
      Evaluator.perform { budget, fuel, apply } node operation := by
  have hacts := logic.acts_of hallows
  cases operation with
  | prompt => exact logic.prompt hallows
  | random => exact logic.random (hacts nofun)
  | eval => exact eval hinside hallows
  | block => exact block hinside hallows
  | call => exact call hinside
  | shell => exact shell hinside (hacts nofun) rfl
  | quit => exact quit hinside hallows rfl
  | not => exact not hinside rfl
  | length => exact length hinside rfl
  | dump => exact dump hinside (hacts nofun)
  | output => exact output hinside (hacts nofun) rfl
  | add => exact add hinside rfl
  | subtract =>
      exact arithmetic hinside (Nat.zero_le 1) le_rfl Arithmetic.failsOnOperands_subtract
  | multiply => exact multiply hinside rfl
  | divide => exact arithmetic hinside (Nat.zero_le 1) le_rfl Arithmetic.failsOnOperands_divide
  | remainder =>
      exact arithmetic hinside (Nat.zero_le 1) le_rfl Arithmetic.failsOnOperands_remainder
  | power => exact arithmetic hinside (Nat.zero_le 1) le_rfl Arithmetic.failsOnOperands_power
  | equal => exact equal hinside
  | less => exact ordered hinside rfl .lt
  | greater => exact ordered hinside rfl .gt
  | and => exact shortCircuit hinside false
  | or => exact shortCircuit hinside true
  | seq => exact seq hinside
  | assign => exact assignment hinside (hacts nofun)
  | whileLoop => exact loop hinside rfl fuel
  | conditional => exact conditional hinside rfl
  | get => exact substring hinside fun _ => id
  | set => exact splice hinside fun _ => id
  | negate => exact negate hinside rfl
  | value => exact value hinside (hacts nofun) rfl

/-! ### Operations of a host -/

section Hosting

variable {node : Nat} (hinside : logic.Inside node fun _ => True)

include hinside

theorem sum (arity count : Nat) (total : Int64) :
    logic.KeepsAny fun apply => Evaluator.sum { budget, fuel, apply } node arity count total := by
  induction count generalizing total with
  | zero => exact logic.pure trivial
  | succ count ih =>
      refine logic.bind (converted hinside trivial) fun value ⟨hmay, hbecomes⟩ => ?_
      exact logic.bind (logic.toNumber hmay hbecomes) fun number _ => ih _

theorem performHost (hexpects : ∀ stop, logic.expects stop) (action : HostAction) :
    logic.Keeps logic.gives fun apply =>
      Evaluator.performHost { budget, fuel, apply } node action := by
  cases action with
  | dump =>
      refine logic.observe fun machine _ => ?_
      have htexts : logic.KeepsAny fun _ => (machine.store.args node).mapM Run.dump := by
        induction machine.store.args node with
        | nil => exact logic.pure trivial
        | cons argument rest ih =>
            simp only [List.mapM_cons]
            have htext : logic.KeepsAny fun _ => Run.dump argument :=
              logic.observe fun _ _ => logic.pure trivial
            exact logic.bind htext fun text _ => logic.bind ih fun _ _ => logic.pure trivial
      refine logic.bind htexts fun texts _ => ?_
      exact logic.bind (logic.intern _) fun _ _ => logic.pure (logic.gives_literal rfl)
  | sum =>
      refine logic.observe fun machine _ => ?_
      exact logic.bind (logic.sum hinside _ _ 0) fun _ _ => logic.pure (logic.gives_literal rfl)
  | depth => exact logic.observe fun _ _ => logic.pure (logic.gives_literal rfl)
  | fail => exact logic.throw (hexpects _)
  | plain => exact logic.throw (hexpects _)
  | last =>
      refine logic.observe fun machine hholds => ?_
      cases hlast : (machine.store.args node).getLast? with
      | none => exact logic.pure (logic.gives_literal rfl)
      | some argument =>
          rw [List.getLast?_eq_getElem?] at hlast
          have hargument := hinside.may ((machine.store.args node).length - 1) hholds
          rw [Store.arg_of_getElem? hlast] at hargument
          exact logic.run hargument

end Hosting

end Logic

/-! ### Applications -/

theorem Machine.enter_level (machine : Machine) (function : Function) :
    (machine.enter function).depth = machine.depth + 1 ∧
      (machine.enter function).maxDepth = machine.maxDepth ∧
      (machine.enter function).trace = machine.trace := by
  unfold enter
  dsimp only
  split <;> exact ⟨rfl, rfl, rfl⟩

theorem Machine.enter_contents (machine : Machine) (function : Function) :
    (machine.enter function).functions = machine.functions ∧
      (machine.enter function).environment = machine.environment ∧
      (machine.enter function).store = machine.store := by
  unfold enter
  dsimp only
  split <;> exact ⟨rfl, rfl, rfl⟩

namespace Evaluator

variable {fuel budget node : Nat} {machine : Machine}

theorem applyWithin_of_none (hfound : machine.store.node? node = none) :
    applyWithin fuel (budget + 1) node machine = .ok .null machine := by
  simp only [applyWithin, hfound]

/-- How an application ends, from how it ends inside. -/
def leaving : EStateM.Result Stop Machine Value → EStateM.Result Stop Machine Value
  | .ok value machine => .ok value machine.leave
  | .error (.error error) machine => .error (.error error) machine.leave
  | .error stop machine => .error stop machine

theorem applyWithin_of_some {found : Node} (hfound : machine.store.node? node = some found) :
    applyWithin fuel (budget + 1) node machine =
      leaving (act { budget, fuel, apply := applyWithin fuel budget } node found.function.action
        (machine.enter found.function)) := by
  simp only [applyWithin, hfound]
  rfl

end Evaluator

end KnightLang
