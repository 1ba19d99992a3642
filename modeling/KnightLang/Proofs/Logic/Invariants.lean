import KnightLang.Proofs.Logic.Evaluation

/-!
Actions that keep an invariant of the machine, as a logic does: actions made of such actions keep it
as well.
-/

namespace KnightLang.Run

/-- Something holds of the machine that is left, and what came out is a good value or an expected
stop. -/
def Meets (holds : Machine → Prop) (expects : Stop → Prop) {α : Type} (good : α → Prop) :
    EStateM.Result Stop Machine α → Prop
  | .ok value after => good value ∧ holds after
  | .error stop after => expects stop ∧ holds after

/-- Wherever an action starts with something that holds, it still holds at the end. -/
def Keeps (holds : Machine → Prop) (expects : Stop → Prop) {α : Type} (good : α → Prop)
    (action : Run α) : Prop :=
  ∀ machine, holds machine → Meets holds expects good (action machine)

/-- What leaving an application keeps up lasts when one is left. -/
theorem Meets.leaving {holds : Machine → Prop} {expects : Stop → Prop} {good : Value → Prop}
    (hleave : ∀ machine, holds machine → holds machine.leave)
    {result : EStateM.Result Stop Machine Value} (hmeets : Meets holds expects good result) :
    Meets holds expects good (Evaluator.leaving result) := by
  cases result with
  | ok value after => exact ⟨hmeets.1, hleave after hmeets.2⟩
  | error stop after =>
      cases stop with
      | error error => exact ⟨hmeets.1, hleave after hmeets.2⟩
      | fault fault => exact hmeets
      | exhausted => exact hmeets

namespace Keeps

variable {holds : Machine → Prop} {expects : Stop → Prop} {α β : Type} {good : α → Prop}
  {good' : β → Prop} {action : Run α}

theorem weaken {other : α → Prop} (haction : Keeps holds expects good action)
    (hgood : ∀ value, good value → other value) : Keeps holds expects other action := by
  intro machine hholds
  have hmeets := haction machine hholds
  generalize action machine = result at hmeets ⊢
  cases result with
  | ok value after => exact ⟨hgood value hmeets.1, hmeets.2⟩
  | error stop after => exact hmeets

theorem pure {value : α} (hgood : good value) : Keeps holds expects good (Pure.pure value) :=
  fun _ hholds => ⟨hgood, hholds⟩

theorem get : Keeps holds expects holds MonadState.get := fun _ hholds => ⟨hholds, hholds⟩

theorem throw {stop : Stop} (hstop : expects stop) :
    Keeps holds expects good (MonadExcept.throw stop) :=
  fun _ hholds => ⟨hstop, hholds⟩

theorem bind {next : α → Run β} (haction : Keeps holds expects good action)
    (hnext : ∀ value, good value → Keeps holds expects good' (next value)) :
    Keeps holds expects good' (action >>= next) := by
  intro machine hholds
  have hmeets := haction machine hholds
  change Meets holds expects good' (EStateM.bind action next machine)
  unfold EStateM.bind
  cases hresult : action machine with
  | ok value middle =>
      rw [hresult] at hmeets
      exact hnext value hmeets.1 middle hmeets.2
  | error stop after =>
      rw [hresult] at hmeets
      exact hmeets

theorem onStore {action : StoreM α} (hfault : ∀ fault, expects (.fault fault))
    (haction : ∀ machine, holds machine →
      LeftIn (fun store => holds { machine with store }) (action machine.store)) :
    Keeps holds expects (fun value => ∃ store after, action store = .ok value after)
      (Run.onStore action) := by
  intro machine hholds
  have hleft := haction machine hholds
  unfold Run.onStore
  dsimp only
  cases hresult : action machine.store with
  | ok value store =>
      rw [hresult] at hleft
      exact ⟨⟨_, _, hresult⟩, hleft⟩
  | error fault store =>
      rw [hresult] at hleft
      exact ⟨hfault fault, hleft⟩

/-! ### Cleaning up -/

section Cleanup

variable {cleanup : Run PUnit}
  (hcleanup : Keeps holds expects (fun _ => True) cleanup)

include hcleanup

/-- A result is given out after something was cleaned up. -/
theorem cleaned {machine : Machine} (hholds : holds machine)
    {ended : Machine → EStateM.Result Stop Machine α}
    (hended : ∀ after, holds after → Meets holds expects good (ended after)) :
    Meets holds expects good
      (match cleanup machine with
      | .ok _ after => ended after
      | .error stop after => .error stop after) := by
  have hmeets := hcleanup machine hholds
  cases hresult : cleanup machine with
  | ok done after =>
      rw [hresult] at hmeets
      exact hended after hmeets.2
  | error stop after =>
      rw [hresult] at hmeets
      exact hmeets

theorem deferring (haction : Keeps holds expects good action) :
    Keeps holds expects good (Run.deferring cleanup action) := by
  intro machine hholds
  have hmeets := haction machine hholds
  unfold Run.deferring
  cases hresult : action machine with
  | ok result middle =>
      rw [hresult] at hmeets
      exact cleaned hcleanup hmeets.2 fun _ hafter => ⟨hmeets.1, hafter⟩
  | error stop middle =>
      rw [hresult] at hmeets
      exact cleaned hcleanup hmeets.2 fun _ hafter => ⟨hmeets.1, hafter⟩

theorem concluding (haction : Keeps holds expects good action) :
    Keeps holds expects good (Run.concluding cleanup action) := by
  intro machine hholds
  have hmeets := haction machine hholds
  unfold Run.concluding
  cases hresult : action machine with
  | ok result middle =>
      rw [hresult] at hmeets
      exact cleaned hcleanup hmeets.2 fun _ hafter => ⟨hmeets.1, hafter⟩
  | error stop middle =>
      rw [hresult] at hmeets
      cases stop with
      | error error => exact cleaned hcleanup hmeets.2 fun _ hafter => ⟨hmeets.1, hafter⟩
      | fault fault => exact hmeets
      | exhausted => exact hmeets

theorem onError (haction : Keeps holds expects good action) :
    Keeps holds expects good (Run.onError cleanup action) := by
  intro machine hholds
  have hmeets := haction machine hholds
  unfold Run.onError
  cases hresult : action machine with
  | ok result middle =>
      rw [hresult] at hmeets
      exact hmeets
  | error stop middle =>
      rw [hresult] at hmeets
      cases stop with
      | error error => exact cleaned hcleanup hmeets.2 fun _ hafter => ⟨hmeets.1, hafter⟩
      | fault fault => exact hmeets
      | exhausted => exact hmeets

end Cleanup

end Keeps

end KnightLang.Run
