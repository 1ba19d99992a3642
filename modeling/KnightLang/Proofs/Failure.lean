import KnightLang.Evaluation
import Mathlib.Tactic.SplitIfs

/-!
Failures with one reason. Whatever lies below the reason comes from outside, so that the chain has
one kind; a position is told only where a source was read.
-/

namespace KnightLang

/-- A reason that neither asks to quit nor was made up by a host. -/
def Reason.IsOrdinary : Reason → Prop
  | .quit _ | .custom .. => False
  | _ => True

/-- No position, or one counted from one for what is found while a source is read. -/
def Place.Suits (place : Place) (reason : Reason) : Prop :=
  place.line = 0 ∧ place.column = 0 ∨
    (0 < place.line ∧ 0 < place.column) ∧ (reason.kind = .parse ∨ reason.kind = .depth)

/-- A failure with one reason, on top of causes from outside. -/
structure Error.HasReason (error : Error) (reason : Reason) : Prop where
  outer : ∃ place, error.outer = .raised reason place ∧ place.Suits reason
  causes : ∀ link ∈ error.causes, link.reason? = none

def Error.IsOrdinary (error : Error) : Prop :=
  ∃ reason, reason.IsOrdinary ∧ error.HasReason reason

def Stop.IsOrdinary : Stop → Prop
  | .error failure => failure.IsOrdinary
  | .fault _ | .exhausted => True

/-! ### What one reason says about a failure -/

theorem Reason.IsOrdinary.kind_ne {reason : Reason} (hordinary : reason.IsOrdinary) :
    reason.kind ≠ .noError ∧ reason.kind ≠ .quit := by
  cases reason with
  | quit status => exact hordinary.elim
  | custom kind message code => exact hordinary.elim
  | _ => exact ⟨nofun, nofun⟩

namespace Error.HasReason

variable {error : Error} {reason : Reason}

theorem reason?_eq (hreason : error.HasReason reason) : error.reason? = some reason := by
  obtain ⟨place, houter, -⟩ := hreason.outer
  rw [Error.reason?, links, houter]
  rfl

theorem kind_eq (hreason : error.HasReason reason) : error.kind = reason.kind := by
  rw [Error.kind, hreason.reason?_eq]
  rfl

theorem isKind_iff (hreason : error.HasReason reason) (kind : ErrorKind) :
    error.isKind kind = true ↔ kind = error.kind := by
  obtain ⟨place, houter, -⟩ := hreason.outer
  have hcauses : ¬∃ link ∈ error.causes, link.reason?.map Reason.kind = some kind := by
    rintro ⟨link, hmem, hkind⟩
    rw [hreason.causes link hmem] at hkind
    cases hkind
  rw [isKind, links, List.any_cons, Bool.or_eq_true, List.any_eq_true, hreason.kind_eq, houter]
  simp only [beq_iff_eq, hcauses, or_false]
  exact ⟨fun heq => (Option.some.inj heq).symm, fun heq => congrArg some heq.symm⟩

theorem quitCode?_eq (hreason : error.HasReason reason) :
    error.quitCode? = if reason.kind = .quit then some reason.code else none := by
  rw [quitCode?, hreason.reason?_eq]
  rfl

theorem quitCode?_isSome_iff (hreason : error.HasReason reason) :
    error.quitCode?.isSome = true ↔ error.kind = .quit := by
  rw [hreason.quitCode?_eq, hreason.kind_eq]
  split_ifs with hkind
  · simp [hkind]
  · simp [hkind]

theorem ne_endOfInput (hreason : error.HasReason reason) : error ≠ .endOfInput := by
  rintro rfl
  obtain ⟨place, houter, -⟩ := hreason.outer
  cases houter

end Error.HasReason

theorem Error.hasReason_raise (reason : Reason) : (Error.raise reason).HasReason reason where
  outer := ⟨{}, rfl, Or.inl ⟨rfl, rfl⟩⟩
  causes := List.forall_mem_nil _

theorem Error.isOrdinary_raise {reason : Reason} (hreason : reason.IsOrdinary) :
    (Error.raise reason).IsOrdinary := ⟨reason, hreason, hasReason_raise reason⟩

theorem Error.isOrdinary_because {reason : Reason} (hreason : reason.IsOrdinary) (cause : Bytes) :
    (Error.because reason (.plain cause)).IsOrdinary :=
  ⟨reason, hreason, ⟨{}, rfl, Or.inl ⟨rfl, rfl⟩⟩, List.forall_mem_singleton.mpr rfl⟩

/-! ### Reasons of arithmetic and of strings -/

/-- A reason that lies in the operands of a computation. -/
def Reason.IsOfOperands : Reason → Prop
  | .dividedByZero _ | .reducedByZero _ | .overflow .. | .negationOverflow _ | .textTooLong _
  | .repetitionTooLong .. | .negativeCount _ | .negativeSubstring .. | .negativeSubstitution ..
  | .startPastEnd .. => True
  | _ => False

theorem Reason.IsOfOperands.isOrdinary {reason : Reason} (hoperands : reason.IsOfOperands) :
    reason.IsOrdinary := by
  cases reason with
  | quit status => exact hoperands
  | custom kind message code => exact hoperands
  | _ => trivial

theorem Reason.IsOfOperands.kind_ne_depth {reason : Reason} (hoperands : reason.IsOfOperands) :
    reason.kind ≠ .depth := by
  cases reason with
  | expressionDepth limit => exact hoperands.elim
  | evaluationDepth limit => exact hoperands.elim
  | custom kind message code => exact hoperands.elim
  | _ => exact nofun

namespace Arithmetic

/-- An operation that fails only because of its operands, whether it is checked or not. -/
def FailsOnOperands (operation : Bool → Except Reason Int64) : Prop :=
  ∀ checked reason, operation checked = .error reason → reason.IsOfOperands

theorem failsOnOperands_of_guarded {condition : Bool → Prop} [DecidablePred condition]
    {guard : Reason} {word : Int64} (hguard : guard.IsOfOperands) :
    FailsOnOperands fun checked => if condition checked then .error guard else .ok word := by
  intro checked reason herror
  dsimp only at herror
  split at herror <;> cases herror
  exact hguard

variable (left right : Int64)

theorem failsOnOperands_add : FailsOnOperands fun checked => add checked left right :=
  failsOnOperands_of_guarded trivial

theorem failsOnOperands_subtract : FailsOnOperands fun checked => subtract checked left right :=
  failsOnOperands_of_guarded trivial

theorem failsOnOperands_multiply : FailsOnOperands fun checked => multiply checked left right :=
  failsOnOperands_of_guarded trivial

theorem failsOnOperands_divide : FailsOnOperands fun checked => divide checked left right := by
  intro checked reason herror
  simp only [divide] at herror
  split_ifs at herror <;> cases herror <;> trivial

theorem failsOnOperands_remainder : FailsOnOperands fun _ => remainder left right :=
  failsOnOperands_of_guarded trivial

theorem failsOnOperands_negate : FailsOnOperands fun checked => negate checked left :=
  failsOnOperands_of_guarded trivial

theorem failsOnOperands_power : FailsOnOperands fun checked => power checked left right := by
  intro checked reason herror
  simp only [power] at herror
  split_ifs at herror
  split at herror <;> cases herror
  trivial

end Arithmetic

namespace Store

/-- An action on the store that fails only because of the operands. -/
def FailsOnOperands {α : Type} (action : StoreM (Except Reason α)) : Prop :=
  ∀ store after reason, action store = .ok (.error reason) after → reason.IsOfOperands

variable {α : Type}

theorem failsOnOperands_ok (action : StoreM α) :
    FailsOnOperands (do return .ok (← action)) := by
  intro store after reason herror
  simp only [bind, EStateM.bind] at herror
  split at herror <;> cases herror

theorem failsOnOperands_error {reason : Reason} (hreason : reason.IsOfOperands) :
    FailsOnOperands (return .error reason : StoreM (Except Reason α)) := by
  intro store after other herror
  cases herror
  exact hreason

theorem failsOnOperands_get {next : Store → StoreM (Except Reason α)}
    (hnext : ∀ store, FailsOnOperands (next store)) : FailsOnOperands (get >>= next) :=
  fun store => hnext store store

theorem failsOnOperands_share (text : TextRef) : FailsOnOperands (share text) := by
  intro store after reason herror
  simp only [share, bind, EStateM.bind] at herror
  split at herror <;> cases herror

theorem failsOnOperands_concat (first second : TextRef) :
    FailsOnOperands (concat first second) := by
  refine failsOnOperands_get fun store => ?_
  dsimp only
  split_ifs
  · exact failsOnOperands_share second
  · exact failsOnOperands_share first
  · exact failsOnOperands_error trivial
  · exact failsOnOperands_ok (addText _)

theorem failsOnOperands_replicate (text : TextRef) (count : Int64) :
    FailsOnOperands (replicate text count) := by
  refine failsOnOperands_get fun store => ?_
  dsimp only
  split_ifs
  · exact failsOnOperands_error trivial
  · exact failsOnOperands_ok (pure _)
  · exact failsOnOperands_share text
  · exact failsOnOperands_error trivial
  · exact failsOnOperands_ok (addText _)

theorem failsOnOperands_substring (text : TextRef) (start length : Int64) :
    FailsOnOperands (substring text start length) := by
  refine failsOnOperands_get fun store => ?_
  dsimp only
  split_ifs
  · exact failsOnOperands_error trivial
  · exact failsOnOperands_ok (pure _)
  · exact failsOnOperands_share text
  · exact failsOnOperands_ok (intern _)

theorem failsOnOperands_splice (text : TextRef) (start length : Int64) (replacement : TextRef) :
    FailsOnOperands (splice text start length replacement) := by
  refine failsOnOperands_get fun store => ?_
  dsimp only
  split_ifs
  · exact failsOnOperands_error trivial
  · exact failsOnOperands_error trivial
  · exact failsOnOperands_ok (pure _)
  · exact failsOnOperands_error trivial
  · exact failsOnOperands_share replacement
  · exact failsOnOperands_share text
  · exact failsOnOperands_ok (addText _)

end Store

end KnightLang
