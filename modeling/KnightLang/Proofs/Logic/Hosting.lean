import KnightLang.Proofs.Host
import KnightLang.Proofs.Logic.Evaluation

/-!
Every logic in which anything goes shows whatever a host may ask for.
-/

namespace KnightLang.Logic

variable {budget fuel : Nat}

/-- Anything may be evaluated and applied, and anything may come of it. -/
structure Unrestricted (logic : Logic budget fuel) : Prop where
  allows : logic.allows .eval
  lists : ∀ function, logic.lists function
  expects : ∀ stop, logic.expects stop
  may : ∀ value, logic.may value
  becomes : ∀ value, logic.becomes budget value
  gives : ∀ value, logic.gives value
  fetch : ∀ name, logic.KeepsAny fun _ => Run.fetch name
  unlist : ∀ cell, logic.KeepsAny fun _ => modify fun machine =>
    { machine with environment := machine.environment.unlist cell }

namespace Unrestricted

variable {logic : Logic budget fuel} (hlogic : logic.Unrestricted)

include hlogic

theorem addNode (function : Function) (args : List Value) :
    logic.KeepsAny fun _ => Run.onStore (Store.addNode function args) :=
  logic.weaken
    (logic.addNode hlogic.allows (hlogic.lists function) fun value _ => hlogic.may value)
    fun _ _ => trivial

theorem make (literal : Literal) : logic.KeepsAny fun _ => Session.make literal := by
  cases literal with
  | null | boolean flag | number word => exact logic.pure trivial
  | string bytes => exact logic.bind (logic.intern bytes) fun _ _ => logic.pure trivial
  | freshString bytes =>
      exact logic.bind (logic.onStore (Store.along_addText bytes) (Store.trimming_addText bytes))
        fun _ _ => logic.pure trivial
  | «variable» name => exact logic.bind (hlogic.fetch name) fun _ _ => logic.pure trivial

theorem parse (source : Source) (label : Bytes) :
    logic.KeepsAny fun _ => Run.parse source label := by
  refine logic.bind (parseFrom hlogic.allows source label) fun result _ => ?_
  obtain ⟨result, rest⟩ := result
  cases result with
  | ok value => exact logic.pure trivial
  | error error => exact logic.throw (hlogic.expects _)

theorem newExpr (function : Function) (args : List Value) :
    logic.KeepsAny fun _ => Session.newExpr function args :=
  logic.ite (fun _ => hlogic.addNode function args) fun _ => logic.throw (hlogic.expects _)

theorem unlistOne (cell : Nat) : logic.KeepsAny fun _ => Run.unlist cell := by
  refine logic.observe fun machine _ => ?_
  cases machine.environment.value? cell with
  | none =>
      have hnothing : logic.Keeps (fun _ : PUnit => True) fun _ => Pure.pure ⟨⟩ :=
        logic.pure trivial
      exact logic.bind hnothing fun _ _ => hlogic.unlist cell
  | some value => exact logic.bind (logic.release value) fun _ _ => hlogic.unlist cell

theorem reset : logic.KeepsAny fun _ => Run.reset := by
  refine logic.observe fun machine _ => ?_
  induction machine.environment.indices with
  | nil => exact logic.pure trivial
  | cons cell rest ih => exact logic.bind (hlogic.unlistOne cell) fun _ _ => ih

/-- Whatever a host asks for is shown. -/
theorem operation (operation : Operation) :
    logic.KeepsAny fun apply => operation.performWith { budget, fuel, apply } := by
  have hmay := hlogic.may
  have hbecomes := hlogic.becomes
  cases operation with
  | make literal => exact logic.bind (hlogic.make literal) fun _ _ => logic.pure trivial
  | parse source label => exact logic.bind (hlogic.parse source label) fun _ _ => logic.pure trivial
  | evaluate source label =>
      exact logic.bind (logic.evaluate hlogic.allows source label) fun _ _ => logic.pure trivial
  | run value => exact logic.bind (logic.run (hmay value)) fun _ _ => logic.pure trivial
  | toBoolean value =>
      exact logic.bind (logic.toBoolean (hmay value) (hbecomes value)) fun _ _ =>
        logic.pure trivial
  | toNumber value =>
      exact logic.bind (logic.toNumber (hmay value) (hbecomes value)) fun _ _ => logic.pure trivial
  | toText value =>
      exact logic.bind (logic.toText (hmay value) (hbecomes value)) fun _ _ => logic.pure trivial
  | compare left right =>
      exact logic.bind (logic.compare (hmay left) (hmay right) (hbecomes right)) fun _ _ =>
        logic.pure trivial
  | concat first second =>
      exact logic.bind (logic.tryConcat first second) fun _ _ => logic.pure trivial
  | replicate text count =>
      exact logic.bind (logic.tryReplicate text count) fun _ _ => logic.pure trivial
  | substring text position length =>
      exact logic.bind (logic.trySubstring text position length) fun _ _ => logic.pure trivial
  | splice text position length replacement =>
      exact logic.bind (logic.trySplice text position length replacement) fun _ _ =>
        logic.pure trivial
  | newExpr function args =>
      exact logic.bind (hlogic.newExpr function args) fun _ _ => logic.pure trivial
  | clone value => exact logic.bind (logic.retain value) fun _ _ => logic.pure trivial
  | release value => exact logic.bind (logic.release value) fun _ _ => logic.pure trivial
  | assign cell value =>
      have hacts := acts_of_eval hlogic.allows
      exact logic.bind (assign hacts (hlogic.gives value) cell) fun _ _ => logic.pure trivial
  | read cell => exact logic.bind (logic.read cell) fun _ _ => logic.pure trivial
  | reset => exact logic.bind hlogic.reset fun _ _ => logic.pure trivial

end Unrestricted

end KnightLang.Logic
