import KnightLang.Proofs.Confinement
import KnightLang.Proofs.Expression.Consumption
import KnightLang.Proofs.Expression.Identifiers
import KnightLang.Proofs.Limits.Reading
import KnightLang.Proofs.Steps

/-!
Logics of evaluation. A logic shows something of a plan from what it shows of the plans that this is
made of. It says which values may be evaluated, which operations may be performed and which stops
may occur; what it knows of the few actions that a machine takes by itself is then enough for all
that evaluation is made of.
-/

namespace KnightLang

/-- An action that leaves open how the applications inside it are applied. -/
abbrev Plan (α : Type) := (Nat → Run Value) → Run α

/-- A stop that is no error of the language: a fault, or a loop that went round too often. It may
leave applications behind that were entered and not left. -/
def Stop.IsCut : Stop → Prop
  | .error _ => False
  | .fault _ | .exhausted => True

/-! ### What is asked of the world -/

/-- The records of traced applications, the latest first. -/
def World.traced (world : World) : List LogRecord :=
  world.notices.filterMap fun
    | .log record => if record.message = "apply" then some record else none
    | .text _ => none

/-- No application was traced and no line was read. -/
structure World.Quiet (before after : World) : Prop where
  traced : after.traced = before.traced
  input : after.input = before.input

namespace World

theorem Quiet.refl (world : World) : world.Quiet world := ⟨rfl, rfl⟩

theorem quiet_flush (world : World) : world.Quiet world.flush.2 := by
  unfold flush
  dsimp only
  split_ifs <;> exact ⟨rfl, rfl⟩

theorem quiet_write (world : World) (bytes : Bytes) : world.Quiet (world.write bytes).2 := by
  unfold write
  dsimp only
  split <;> exact ⟨rfl, rfl⟩

theorem quiet_runCommand (world : World) (command : Bytes) :
    world.Quiet (world.runCommand command).2 := by
  unfold runCommand
  dsimp only
  split_ifs <;> exact ⟨rfl, rfl⟩

theorem traced_log (world : World) {record : LogRecord} (happly : record.message = "apply") :
    (world.log record).traced = record :: world.traced := by
  simp [traced, log, happly]

theorem quiet_log (world : World) {record : LogRecord} (hother : record.message ≠ "apply") :
    world.Quiet (world.log record) where
  traced := by simp [traced, log, hother]
  input := rfl

end World

/-! ### Which operations do what -/

/-- The operations that neither change a variable nor have to do with anything outside the
machine, and do not run what they are not given. -/
def Builtin.IsPure : Builtin → Prop
  | .prompt | .random | .eval | .call | .shell | .quit | .dump | .output | .assign | .value => False
  | _ => True

instance : DecidablePred Builtin.IsPure
  | .prompt | .random | .eval | .call | .shell | .quit | .dump | .output | .assign | .value =>
    isFalse id
  | .block | .not | .length | .add | .subtract | .multiply | .divide | .remainder | .power
  | .equal | .less | .greater | .and | .or | .seq | .whileLoop | .conditional | .get | .set
  | .negate => isTrue trivial

/-- Whether an operation converts its argument at a position to a truth value, a number or a text,
when the argument is a variable. -/
def Builtin.Converts : Builtin → (position : Nat) → Prop
  | .not, position | .length, position | .output, position | .shell, position | .quit, position
  | .negate, position | .value, position | .whileLoop, position | .conditional, position =>
    position = 0
  | .add, position | .multiply, position | .less, position | .greater, position => position = 1
  | .subtract, position | .divide, position | .remainder, position | .power, position =>
    position ≤ 1
  | .get, position => position ≤ 2
  | .set, position => position ≤ 3
  | _, _ => False

/-! ### Logics -/

/-- What can be shown of plans from the way they are made, where `budget` more applications may nest
and a loop may go round `fuel` times. -/
structure Logic (budget fuel : Nat) where
  /-- A plan can be shown, and the values that it gives are good. -/
  Keeps : {α : Type} → (good : α → Prop) → Plan α → Prop
  /-- The machines that there are on the way. -/
  holds : Machine → Prop
  /-- The operations that applications may perform. -/
  allows : Builtin → Prop
  /-- Whether anything but the store may change. -/
  acts : Prop
  /-- The functions that expressions apply which are read on the way. -/
  lists : Function → Prop
  /-- The stops that may occur. -/
  expects : Stop → Prop
  /-- The values that may be evaluated. -/
  may : Value → Prop
  /-- The values that become literals in at most so many steps. -/
  becomes : Nat → Value → Prop
  /-- The values that evaluation gives. -/
  gives : Value → Prop
  pure : ∀ {α : Type} {good : α → Prop} {value : α}, good value →
    Keeps good fun _ => Pure.pure value
  bind : ∀ {α β : Type} {good : α → Prop} {good' : β → Prop} {first : Plan α}
    {next : α → Plan β}, Keeps good first → (∀ value, good value → Keeps good' (next value)) →
    Keeps good' fun apply => first apply >>= fun value => next value apply
  look : Keeps holds fun _ => get
  throw : ∀ {α : Type} {good : α → Prop} {stop : Stop}, expects stop →
    Keeps good fun _ => MonadExcept.throw stop
  deferring : ∀ {α : Type} {good : α → Prop} {value : Value} {plan : Plan α}, Keeps good plan →
    Keeps good fun apply => Run.deferring (Run.release value) (plan apply)
  concluding : ∀ {α : Type} {good : α → Prop} {value : Value} {plan : Plan α}, Keeps good plan →
    Keeps good fun apply => Run.concluding (Run.release value) (plan apply)
  onError : ∀ {α : Type} {good : α → Prop} {value : Value} {plan : Plan α}, Keeps good plan →
    Keeps good fun apply => Run.onError (Run.release value) (plan apply)
  onStore : ∀ {α : Type} {action : StoreM α}, Along Store.Steps action → Store.Trimming action →
    Keeps (fun value => ∃ store after, action store = .ok value after)
      fun _ => Run.onStore action
  addNode : ∀ {function : Function} {args : List Value}, allows .eval → lists function →
    (∀ value ∈ args, may value) →
    Keeps may fun _ => Run.onStore (Store.addNode function args)
  fetch : ∀ {name : Bytes}, acts → name.isIdentifier = true →
    Keeps (fun _ => True) fun _ => Run.fetch name
  update : ∀ {value : Value} (cell : Nat), acts → gives value →
    Keeps (fun _ => True) fun _ => modify fun machine =>
      { machine with environment := machine.environment.assign cell value }
  askWorld : ∀ {α : Type} (ask : World → α × World), acts →
    (∀ world : World, world.Quiet (ask world).2) →
    Keeps (fun _ => True) fun _ => modifyGet fun machine =>
      ((ask machine.world).1, { machine with world := (ask machine.world).2 })
  readLine : allows .prompt → Keeps (fun _ => True) fun _ => modifyGet fun machine =>
    (machine.world.readLine.1, { machine with world := machine.world.readLine.2 })
  drawRandom : acts → Keeps (fun _ => True) fun _ => Run.drawRandom
  apply : ∀ {node : Nat}, may (.expr node) → Keeps gives fun apply => apply node
  acts_of : ∀ {operation : Builtin}, allows operation → ¬operation.IsPure → acts
  lists_of : ∀ {machine : Machine} {byte : UInt8} {function : Function}, holds machine →
    machine.functions.find? byte = some function → lists function
  expects_ordinary : ∀ {error : Error}, error.IsOrdinary → error.kind ≠ .depth →
    expects (.error error)
  expects_cut : ∀ {stop : Stop}, stop.IsCut → expects stop
  expects_quit : ∀ (status : Int64), allows .quit → expects (.error (.raise (.quit status)))
  expects_stuck : ∀ {value : Value} (limit : Int), becomes 0 value → value.isLiteral = false →
    expects (.error (.raise (.evaluationDepth limit)))
  /-- The failure of EVAL to read an expression. -/
  expects_unread : ∀ {error : Error}, allows .eval → error.IsOrdinary → expects (.error error)
  may_variable : ∀ {cell : Nat}, allows .eval → may (.variable cell)
  may_literal : ∀ {value : Value}, value.isLiteral = true → may value
  becomes_literal : ∀ {steps : Nat} {value : Value}, value.isLiteral = true → becomes steps value
  becomes_expr : ∀ {node : Nat}, may (.expr node) → becomes budget (.expr node)
  becomes_read : ∀ {value : Value}, allows .eval → may value → becomes budget value
  gives_literal : ∀ {value : Value}, value.isLiteral = true → gives value
  gives_may : ∀ {value : Value}, gives value → may value
  gives_becomes : ∀ {steps : Nat} {value : Value}, gives value → becomes steps value
  gives_cell : ∀ {machine : Machine} {cell : Nat} {value : Value}, holds machine →
    machine.environment.value? cell = some value → gives value
  gives_block : ∀ {value : Value}, allows .block → may value → gives value

namespace Logic

variable {budget fuel : Nat} (logic : Logic budget fuel) {α : Type} {good : α → Prop}

/-- A plan that can be shown, whatever it gives. -/
abbrev KeepsAny (plan : Plan α) : Prop := logic.Keeps (fun _ => True) plan

theorem weaken {other : α → Prop} {plan : Plan α} (hplan : logic.Keeps good plan)
    (hgood : ∀ value, good value → other value) : logic.Keeps other plan := by
  have hbind := logic.bind hplan fun value hvalue => logic.pure (hgood value hvalue)
  simpa only [bind_pure] using hbind

theorem observe {next : Machine → Plan α}
    (hnext : ∀ machine, logic.holds machine → logic.Keeps good (next machine)) :
    logic.Keeps good fun apply => get >>= fun machine => next machine apply :=
  logic.bind logic.look hnext

theorem ite {condition : Prop} [Decidable condition] {plan other : Plan α}
    (hthen : condition → logic.Keeps good plan) (helse : ¬condition → logic.Keeps good other) :
    logic.Keeps good fun apply => if condition then plan apply else other apply := by
  split
  · next hcondition => exact hthen hcondition
  · next hcondition => exact helse hcondition

theorem raise {reason : Reason} (hordinary : reason.IsOrdinary) (hkind : reason.kind ≠ .depth) :
    logic.Keeps good fun _ => Run.raise reason :=
  logic.throw (logic.expects_ordinary (Error.isOrdinary_raise hordinary) hkind)

theorem raiseBecause {reason : Reason} (hordinary : reason.IsOrdinary)
    (hkind : reason.kind ≠ .depth) (cause : Bytes) :
    logic.Keeps good fun _ => Run.raiseBecause reason cause :=
  logic.throw (logic.expects_ordinary (Error.isOrdinary_because hordinary cause) hkind)

/-! ### The store -/

theorem raiseOfOperands {reason : Reason} (hreason : reason.IsOfOperands) :
    logic.Keeps good fun _ => Run.raise reason :=
  logic.raise hreason.isOrdinary hreason.kind_ne_depth

theorem tryOnStore {action : StoreM (Except Reason α)} (hsteps : Along Store.Steps action)
    (htrims : Store.Trimming action) (hfails : Store.FailsOnOperands action) :
    logic.KeepsAny fun _ => Run.tryOnStore action := by
  refine logic.bind (logic.onStore hsteps htrims) fun result hresult => ?_
  cases result with
  | ok value => exact logic.pure trivial
  | error reason =>
      obtain ⟨store, after, haction⟩ := hresult
      exact logic.raiseOfOperands (hfails store after reason haction)

theorem retain (value : Value) : logic.KeepsAny fun _ => Run.retain value :=
  logic.weaken (logic.onStore (Store.along_retain value) (Store.trimming_retain value))
    fun _ _ => trivial

theorem release (value : Value) : logic.KeepsAny fun _ => Run.release value :=
  logic.weaken (logic.onStore (Store.along_release value) (Store.trimming_release value))
    fun _ _ => trivial

theorem intern (contents : Bytes) :
    logic.KeepsAny fun _ => Run.onStore (Store.intern contents) :=
  logic.weaken
    (logic.onStore (Store.along_intern Store.along_addText contents)
      (Store.trimming_intern contents))
    fun _ _ => trivial

theorem literalText (literal : Value) :
    logic.KeepsAny fun _ => Run.onStore (Store.literalText literal) :=
  logic.weaken
    (logic.onStore (Store.along_literalText Store.along_retainText Store.along_addText literal)
      (Store.trimming_literalText literal))
    fun _ _ => trivial

theorem tryConcat (first second : TextRef) :
    logic.KeepsAny fun _ => Run.tryOnStore (Store.concat first second) :=
  logic.tryOnStore (Store.along_concat Store.along_retainText Store.along_addText first second)
    (Store.trimming_concat first second) (Store.failsOnOperands_concat first second)

theorem tryReplicate (text : TextRef) (count : Int64) :
    logic.KeepsAny fun _ => Run.tryOnStore (Store.replicate text count) :=
  logic.tryOnStore (Store.along_replicate Store.along_retainText Store.along_addText text count)
    (Store.trimming_replicate text count) (Store.failsOnOperands_replicate text count)

theorem trySubstring (text : TextRef) (start length : Int64) :
    logic.KeepsAny fun _ => Run.tryOnStore (Store.substring text start length) :=
  logic.tryOnStore
    (Store.along_substring Store.along_retainText Store.along_addText text start length)
    (Store.trimming_substring text start length) (Store.failsOnOperands_substring text start length)

theorem trySplice (text : TextRef) (start length : Int64) (replacement : TextRef) :
    logic.KeepsAny fun _ => Run.tryOnStore (Store.splice text start length replacement) :=
  logic.tryOnStore
    (Store.along_splice Store.along_retainText Store.along_addText text start length replacement)
    (Store.trimming_splice text start length replacement)
    (Store.failsOnOperands_splice text start length replacement)

/-! ### Variables and the outside -/

theorem read (cell : Nat) : logic.Keeps logic.gives fun _ => Run.read cell := by
  refine logic.observe fun machine hholds => ?_
  dsimp only
  cases hvalue : machine.environment.value? cell with
  | none => exact logic.raise trivial nofun
  | some value =>
      exact logic.bind (logic.retain value) fun _ _ => logic.pure (logic.gives_cell hholds hvalue)

section Acting

variable {logic} (hacts : logic.acts)

include hacts

theorem assign {value : Value} (hvalue : logic.gives value) (cell : Nat) :
    logic.KeepsAny fun _ => Run.assign cell value := by
  refine logic.observe fun machine _ => ?_
  refine logic.bind (logic.update cell hacts hvalue) fun _ _ => ?_
  cases machine.environment.value? cell with
  | none => exact logic.pure trivial
  | some previous => exact logic.release previous

theorem flush : logic.KeepsAny fun _ => Run.flush := by
  refine logic.bind (logic.askWorld World.flush hacts World.quiet_flush) fun failure _ => ?_
  cases failure with
  | some text => exact logic.raiseBecause (by exact trivial) (by decide) text
  | none => exact logic.pure trivial

theorem write (bytes : Bytes) : logic.KeepsAny fun _ => Run.write bytes := by
  refine logic.bind (logic.askWorld (fun world => world.write bytes) hacts fun world =>
    world.quiet_write bytes) fun failure _ => ?_
  cases failure with
  | some text => exact logic.raiseBecause (by exact trivial) (by decide) text
  | none => exact flush hacts

theorem log {record : LogRecord} (hother : record.message ≠ "apply") :
    logic.KeepsAny fun _ => Run.log record :=
  logic.askWorld (fun world => (PUnit.unit, world.log record)) hacts fun world =>
    world.quiet_log hother

end Acting

/-! ### Expressions -/

section Reading

variable {logic}

theorem acts_of_eval (heval : logic.allows .eval) : logic.acts := logic.acts_of heval nofun

theorem fetchAll (heval : logic.allows .eval) (names : List Bytes)
    (hnames : ∀ name ∈ names, name.isIdentifier = true) :
    logic.KeepsAny fun _ => (names.forM fun name => do let _ ← Run.fetch name) := by
  have hacts := acts_of_eval heval
  induction names with
  | nil => exact logic.pure trivial
  | cons name rest ih =>
      obtain ⟨hname, hrest⟩ := List.forall_mem_cons.mp hnames
      have hfirst : logic.KeepsAny fun _ => (do let _ ← Run.fetch name) :=
        logic.bind (logic.fetch hacts hname) fun _ _ => logic.pure trivial
      exact logic.bind hfirst fun _ _ => ih hrest

mutual

theorem load (heval : logic.allows .eval) (tree : Tree) (hspelled : tree.IsSpelled)
    (hlists : ∀ function, tree.Applies function → logic.lists function) :
    logic.Keeps logic.may fun _ => tree.load := by
  cases tree with
  | null | boolean flag | number word => exact logic.pure (logic.may_literal rfl)
  | text contents =>
      exact logic.bind (logic.intern contents) fun _ _ => logic.pure (logic.may_literal rfl)
  | «variable» name =>
      exact logic.bind (logic.fetch (acts_of_eval heval) (hspelled name .self)) fun _ _ =>
        logic.pure (logic.may_variable heval)
  | apply function args =>
      have hargs : ∀ tree ∈ args, tree.IsSpelled :=
        fun tree hmem name hmentions => hspelled name (.argument hmem hmentions)
      have hlistsArgs : ∀ tree ∈ args, ∀ function, tree.Applies function → logic.lists function :=
        fun tree hmem other happlies => hlists other (.argument hmem happlies)
      exact logic.bind (loadAll heval args hargs hlistsArgs) fun values hvalues =>
        logic.addNode heval (hlists function .self) hvalues

theorem loadAll (heval : logic.allows .eval) (trees : List Tree)
    (hspelled : ∀ tree ∈ trees, tree.IsSpelled)
    (hlists : ∀ tree ∈ trees, ∀ function, tree.Applies function → logic.lists function) :
    logic.Keeps (fun values => ∀ value ∈ values, logic.may value)
      fun _ => Tree.loadAll trees := by
  cases trees with
  | nil => exact logic.pure (List.forall_mem_nil _)
  | cons tree rest =>
      obtain ⟨hfirst, hrest⟩ := List.forall_mem_cons.mp hspelled
      obtain ⟨hlistsFirst, hlistsRest⟩ := List.forall_mem_cons.mp hlists
      refine logic.bind (load heval tree hfirst hlistsFirst) fun value hvalue => ?_
      refine logic.bind (loadAll heval rest hrest hlistsRest) fun values hvalues => ?_
      exact logic.pure (List.forall_mem_cons.mpr ⟨hvalue, hvalues⟩)

end

/-- What may come of reading an expression. -/
def Parsed (logic : Logic budget fuel) (result : Except Error Value × Source) : Prop :=
  match result.1 with
  | .ok value => logic.may value
  | .error error => Scan.Fails error

theorem parseFrom (heval : logic.allows .eval) (source : Source) (label : Bytes) :
    logic.Keeps logic.Parsed fun _ => Run.parseFrom source label := by
  refine logic.observe fun machine hholds => ?_
  have hspelled := Grammar.parse_spelled (machine.grammar label source.failure) source.unread
  have hadvances := Grammar.parse_advances (machine.grammar label source.failure) source.unread
  cases hparse : (machine.grammar label source.failure).parse source.unread with
  | ok tree scanner =>
      have hfollows := Scan.expression_follows (machine.grammar label source.failure)
        machine.maxDepth (le_refl machine.maxDepth.toNat)
      obtain ⟨-, htree⟩ := hfollows.ok hparse
      rw [hparse] at hspelled
      have hlists : ∀ function, tree.Applies function → logic.lists function := by
        intro function happlies
        obtain ⟨byte, hfind⟩ := htree function happlies
        exact logic.lists_of hholds hfind
      exact logic.bind (load heval tree hspelled hlists) fun value hvalue => logic.pure hvalue
  | error error scanner =>
      rw [hparse] at hspelled hadvances
      have hnames : ∀ name ∈ scanner.names.reverse, name.isIdentifier = true :=
        fun name hmem => hspelled name (List.mem_reverse.mp hmem)
      exact logic.bind (fetchAll heval _ hnames) fun _ _ => logic.pure hadvances.2

end Reading

end Logic

end KnightLang
