import KnightLang.Proofs.Lockstep.Actions

/-!
Evaluation and conversion of values side by side, given that applications stay in step.
-/

namespace KnightLang

/-- Two evaluators that apply guarded applications in step. -/
structure Evaluator.Twins (first second : Evaluator) : Prop where
  budget : second.budget = first.budget
  fuel : second.fuel = first.fuel
  apply : ∀ {start counting lasting : Machine} {held : Multiset Value} {node : Nat},
    start.InStep held counting lasting → counting.Guards held (.expr node) →
    Run.Lockstep start held (fun result => {result}) (first.apply node counting)
      (second.apply node lasting)

namespace Run.Lockstep

open Machine Evaluator

variable {α : Type} {first second : Evaluator} {start counting lasting : Machine}
  {held : Multiset Value} {gives : α → Multiset Value} {value : Value}

theorem retain (instep : start.InStep held counting lasting)
    (hguards : counting.Guards held value) :
    Lockstep start held (fun result => {result})
      ((do @Run.retain .counting value; return value : Run Value) counting)
      ((do @Run.retain .lasting value; return value : Run Value) lasting) := by
  obtain ⟨after, hcounting, hlasting, hretained⟩ :=
    instep.retain hguards (InStep.held_subset held counting.environment)
  exact step hcounting hlasting (.ok hretained)

theorem tooDeep (instep : start.InStep held counting lasting) :
    Lockstep start held gives ((Evaluator.tooDeep : Run α) counting)
      ((Evaluator.tooDeep : Run α) lasting) := by
  refine observe ?_
  rw [show lasting.maxDepth = counting.maxDepth by rw [instep.same]]
  exact raise instep _

variable (twins : first.Twins second)

include twins

theorem run (instep : start.InStep held counting lasting) (hguards : counting.Guards held value) :
    Lockstep start held (fun result => {result}) (@Evaluator.run .counting first value counting)
      (@Evaluator.run .lasting second value lasting) := by
  cases value with
  | «variable» cell => exact read instep cell
  | expr node => exact twins.apply instep hguards
  | null | boolean flag | number word | string text => exact retain instep hguards

theorem forceWithin (steps : Nat) {counting lasting : Machine} {value : Value}
    (instep : start.InStep (value ::ₘ held) counting lasting) :
    Lockstep start held (fun result => {result})
      (@Evaluator.forceWithin .counting first steps value counting)
      (@Evaluator.forceWithin .lasting second steps value lasting) := by
  induction steps generalizing value counting lasting with
  | zero =>
      unfold Evaluator.forceWithin
      by_cases hliteral : value.isLiteral = true
      · simp only [hliteral, ↓reduceIte]
        exact .ok instep
      · simp only [hliteral]
        obtain ⟨after, hcounting, hlasting, hreleased⟩ := instep.release
        exact step hcounting hlasting (tooDeep hreleased)
  | succ steps ih =>
      unfold Evaluator.forceWithin
      by_cases hliteral : value.isLiteral = true
      · simp only [hliteral, ↓reduceIte]
        exact .ok instep
      · simp only [hliteral]
        refine (concluding (run twins instep (guards_cons_self _ _ _))).bind ?_
        intro next counting lasting instep
        exact ih instep

theorem force (instep : start.InStep held counting lasting)
    (hguards : counting.Guards held value) :
    Lockstep start held (fun result => {result}) (@Evaluator.force .counting first value counting)
      (@Evaluator.force .lasting second value lasting) := by
  obtain ⟨after, hcounting, hlasting, hretained⟩ :=
    instep.retain hguards (InStep.held_subset held counting.environment)
  refine step hcounting hlasting ?_
  rw [twins.budget]
  exact forceWithin twins _ hretained

/-- An action on a literal is performed while the literal is guarded. -/
theorem withLiteral {action action' : Value → Run α} (instep : start.InStep held counting lasting)
    (hguards : counting.Guards held value)
    (haction : ∀ literal more counting lasting, start.InStep more counting lasting →
      counting.Guards more literal →
      Lockstep start more gives (action literal counting) (action' literal lasting)) :
    Lockstep start held gives (@Evaluator.withLiteral .counting α first value action counting)
      (@Evaluator.withLiteral .lasting α second value action' lasting) := by
  unfold Evaluator.withLiteral
  by_cases hliteral : value.isLiteral = true
  · simp only [hliteral, ↓reduceIte]
    exact haction value held counting lasting instep hguards
  · simp only [hliteral]
    refine (force twins instep hguards).bind fun literal counting lasting instep => ?_
    rw [Multiset.singleton_add] at instep
    exact deferring (haction literal _ counting lasting instep (guards_cons_self _ _ _))

theorem toBoolean (instep : start.InStep held counting lasting)
    (hguards : counting.Guards held value) :
    Lockstep start held (fun _ => 0) (@Evaluator.toBoolean .counting first value counting)
      (@Evaluator.toBoolean .lasting second value lasting) := by
  refine withLiteral twins instep hguards fun literal more counting lasting instep hguards => ?_
  refine observe ?_
  have hsame : lasting.store.literalBoolean literal = counting.store.literalBoolean literal := by
    cases literal with
    | string text => simp only [Store.literalBoolean, instep.bytes_eq hguards]
    | null | boolean flag | number word | «variable» cell | expr node => rfl
  rw [hsame]
  exact .ok (by rwa [zero_add])

theorem toNumber (instep : start.InStep held counting lasting)
    (hguards : counting.Guards held value) :
    Lockstep start held (fun _ => 0) (@Evaluator.toNumber .counting first value counting)
      (@Evaluator.toNumber .lasting second value lasting) := by
  refine withLiteral twins instep hguards fun literal more counting lasting instep hguards => ?_
  refine observe ?_
  have hsame : lasting.store.literalNumber literal = counting.store.literalNumber literal := by
    cases literal with
    | string text => simp only [Store.literalNumber, instep.bytes_eq hguards]
    | null | boolean flag | number word | «variable» cell | expr node => rfl
  rw [hsame]
  exact .ok (by rwa [zero_add])

theorem toText (instep : start.InStep held counting lasting)
    (hguards : counting.Guards held value) :
    Lockstep start held (fun text => {.string text})
      (@Evaluator.toText .counting first value counting)
      (@Evaluator.toText .lasting second value lasting) :=
  withLiteral twins instep hguards fun _ _ _ _ instep hguards => literalText instep hguards

theorem withText {action action' : TextRef → Run α} (instep : start.InStep held counting lasting)
    (hguards : counting.Guards held value)
    (haction : ∀ text counting lasting, start.InStep (.string text ::ₘ held) counting lasting →
      Lockstep start (.string text ::ₘ held) gives (action text counting) (action' text lasting)) :
    Lockstep start held gives (@Evaluator.withText .counting α first value action counting)
      (@Evaluator.withText .lasting α second value action' lasting) :=
  (toText twins instep hguards).bind fun text counting lasting instep =>
    deferring (haction text counting lasting instep)

theorem withResult {action action' : Value → Run α} (instep : start.InStep held counting lasting)
    (hguards : counting.Guards held value)
    (haction : ∀ result counting lasting, start.InStep (result ::ₘ held) counting lasting →
      Lockstep start (result ::ₘ held) gives (action result counting) (action' result lasting)) :
    Lockstep start held gives (@Evaluator.withResult .counting α first value action counting)
      (@Evaluator.withResult .lasting α second value action' lasting) :=
  (run twins instep hguards).bind fun result counting lasting instep =>
    deferring (haction result counting lasting instep)

theorem compare {left right : Value} (instep : start.InStep held counting lasting)
    (hleft : start.Guards held left) (hright : start.Guards held right) :
    Lockstep start held (fun _ => 0) (@Evaluator.compare .counting first left right counting)
      (@Evaluator.compare .lasting second left right lasting) := by
  have hleft := instep.guards hleft (Multiset.Subset.refl held)
  refine withResult twins instep hleft fun result counting lasting instep => ?_
  have hright := instep.guards hright (Multiset.subset_cons held result)
  cases result with
  | string text =>
      refine withText twins instep hright fun other counting lasting instep => ?_
      refine observe ?_
      have htext : counting.Guards (.string other ::ₘ .string text ::ₘ held) (.string text) :=
        (guards_cons_self _ _ _).mono (Multiset.subset_cons _ _)
      rw [instep.bytes_eq htext, instep.bytes_eq (guards_cons_self _ _ _)]
      exact .ok (by rwa [zero_add])
  | number word => exact (toNumber twins instep hright).map fun _ => rfl
  | boolean flag => exact (toBoolean twins instep hright).map fun _ => rfl
  | null | «variable» cell | expr node => exact raise instep _

end Run.Lockstep

end KnightLang
