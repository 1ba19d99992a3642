import KnightLang.Proofs.Conversion
import KnightLang.Proofs.Ownership

/-!
Variables that hold references to variables. A conversion follows the references one step at a
time, as many steps as applications may still nest; so it comes to the literal behind them if there
are not more of them than that, and it never follows a circle for good.
-/

namespace KnightLang

/-! ### Chains of references -/

/-- From one cell on, the given number of cells hold a reference to the next cell, up to a last
one. -/
inductive Environment.Leads (environment : Environment) : Nat → Nat → Nat → Prop where
  | refl (cell : Nat) : Leads environment 0 cell cell
  | step {cell next last steps : Nat} :
      environment.value? cell = some (.variable next) → Leads environment steps next last →
      Leads environment (steps + 1) cell last

namespace Environment.Leads

variable {environment : Environment} {first middle last steps more : Nat}

theorem trans (hfirst : environment.Leads steps first middle)
    (hsecond : environment.Leads more middle last) :
    environment.Leads (steps + more) first last := by
  induction hfirst with
  | refl cell => rwa [Nat.zero_add]
  | step hvalue _ ih => exact (Nat.succ_add _ more).symm ▸ .step hvalue (ih hsecond)

theorem rounds (hround : environment.Leads steps first first) (count : Nat) :
    environment.Leads (count * steps) first first := by
  induction count with
  | zero => exact (Nat.zero_mul steps).symm ▸ .refl first
  | succ count ih => exact (Nat.succ_mul count steps).symm ▸ ih.trans hround

end Environment.Leads

namespace Run

variable {machine : Machine} {cell : Nat}

theorem read_of_variable {next : Nat}
    (hvalue : machine.environment.value? cell = some (.variable next)) :
    read cell machine = .ok (.variable next) machine :=
  read_of_some hvalue (Store.retain_of_isPlain rfl)

@[simp]
theorem release_variable (cell : Nat) (machine : Machine) :
    release (.variable cell) machine = .ok ⟨⟩ machine :=
  onStore_ok (Store.releaseWithin_of_isPlain _ rfl)

end Run

namespace Evaluator

variable {evaluator : Evaluator} {machine : Machine} {cell last steps : Nat}

/-! ### Following the references -/

theorem forceWithin_zero (evaluator : Evaluator) (cell : Nat) (machine : Machine) :
    evaluator.forceWithin 0 (.variable cell) machine =
      .error (.error (.raise (.evaluationDepth machine.maxDepth))) machine := by
  unfold forceWithin
  exact Run.bind_ok (Run.release_variable cell machine)

theorem forceWithin_succ_of_ok {value : Value} {middle : Machine}
    (hread : Run.read cell machine = .ok value middle) (steps : Nat) :
    evaluator.forceWithin (steps + 1) (.variable cell) machine =
      evaluator.forceWithin steps value middle := by
  rw [forceWithin]
  refine Run.bind_ok ?_
  change Run.concluding _ (Run.read cell) machine = _
  simp only [Run.concluding, hread, Run.release_variable]

theorem forceWithin_succ_of_error {error : Error}
    (hread : Run.read cell machine = .error (.error error) machine) (steps : Nat) :
    evaluator.forceWithin (steps + 1) (.variable cell) machine = .error (.error error) machine := by
  rw [forceWithin]
  refine Run.bind_error ?_
  change Run.concluding _ (Run.read cell) machine = _
  simp only [Run.concluding, hread, Run.release_variable]

theorem forceWithin_add (hleads : machine.environment.Leads steps cell last) (more : Nat) :
    evaluator.forceWithin (steps + more) (.variable cell) machine =
      evaluator.forceWithin more (.variable last) machine := by
  induction hleads with
  | refl cell => rw [Nat.zero_add]
  | step hvalue _ ih =>
      rw [Nat.succ_add, forceWithin_succ_of_ok (Run.read_of_variable hvalue), ih]

/-- A chain that is not shorter than the number of steps is given up. -/
theorem forceWithin_of_le (hleads : machine.environment.Leads steps cell last) {budget : Nat}
    (hle : budget ≤ steps) :
    evaluator.forceWithin budget (.variable cell) machine =
      .error (.error (.raise (.evaluationDepth machine.maxDepth))) machine := by
  induction hleads generalizing budget with
  | refl cell =>
      obtain rfl : budget = 0 := Nat.le_zero.mp hle
      exact forceWithin_zero evaluator cell machine
  | step hvalue _ ih =>
      cases budget with
      | zero => exact forceWithin_zero evaluator _ machine
      | succ budget =>
          rw [forceWithin_succ_of_ok (Run.read_of_variable hvalue)]
          exact ih (Nat.le_of_succ_le_succ hle)

theorem force_variable (evaluator : Evaluator) (cell : Nat) (machine : Machine) :
    evaluator.force (.variable cell) machine =
      evaluator.forceWithin evaluator.budget (.variable cell) machine :=
  Run.bind_ok (Run.onStore_ok (Store.retain_of_isPlain rfl))

/-! ### Conversions -/

/-- Whatever a value is converted to, it converts as a literal does. -/
structure ConvertsAs (evaluator : Evaluator) (value literal : Value) (machine : Machine) :
    Prop where
  toBoolean_eq : evaluator.toBoolean value machine =
    .ok (machine.store.literalBoolean literal) machine
  toNumber_eq : evaluator.toNumber value machine =
    .ok (machine.store.literalNumber literal) machine
  toText_eq : evaluator.toText value machine = evaluator.toText literal machine
  exists_text : ∃ text after, evaluator.toText value machine = .ok text after ∧
    after.store.bytes text = machine.store.literalBytes literal

/-- Whatever a value is converted to, the conversion fails and leaves the machine as it was. -/
structure FailsToConvert (evaluator : Evaluator) (value : Value) (reason : Reason)
    (machine : Machine) : Prop where
  toBoolean_eq : evaluator.toBoolean value machine = .error (.error (.raise reason)) machine
  toNumber_eq : evaluator.toNumber value machine = .error (.error (.raise reason)) machine
  toText_eq : evaluator.toText value machine = .error (.error (.raise reason)) machine

section Conversion

variable {value : Value} (hvalue : value.isLiteral = false)

include hvalue

theorem withLiteral_of_ok {α : Type} {literal : Value} {forced : Machine}
    (hforce : evaluator.force value machine = .ok literal forced) (action : Value → Run α) :
    evaluator.withLiteral value action machine =
      Run.deferring (Run.release literal) (action literal) forced := by
  unfold withLiteral
  rw [hvalue]
  exact Run.bind_ok hforce

theorem withLiteral_of_error {α : Type} {stop : Stop} {forced : Machine}
    (hforce : evaluator.force value machine = .error stop forced) (action : Value → Run α) :
    evaluator.withLiteral value action machine = .error stop forced := by
  unfold withLiteral
  rw [hvalue]
  exact Run.bind_error hforce

theorem failsToConvert_of_force {reason : Reason}
    (hforce : evaluator.force value machine = .error (.error (.raise reason)) machine) :
    evaluator.FailsToConvert value reason machine where
  toBoolean_eq := withLiteral_of_error hvalue hforce _
  toNumber_eq := withLiteral_of_error hvalue hforce _
  toText_eq := withLiteral_of_error hvalue hforce _

/-- A value converts as the literal it evaluates to, if the evaluation takes a reference to that
literal and changes nothing else. -/
theorem convertsAs_of_force {literal : Value} {after : Store} (hliteral : literal.isLiteral = true)
    (husable : machine.store.Usable literal) (hlends : machine.store.Lends literal after)
    (hforce : evaluator.force value machine = .ok literal { machine with store := after }) :
    evaluator.ConvertsAs value literal machine := by
  have hrelease := Run.release_of_lends hlends
  obtain ⟨text, last, htext, hbytes, middle, hmiddle, hlast⟩ :=
    husable.exists_literalText hliteral hlends
  have hdirect : evaluator.toText literal machine = .ok text { machine with store := last } := by
    rw [toText_of_isLiteral hliteral]
    exact Run.onStore_ok htext
  have htoText : evaluator.toText value machine = .ok text { machine with store := last } := by
    refine (withLiteral_of_ok hvalue hforce _).trans ?_
    exact Run.deferring_ok (Run.onStore_ok hmiddle) (Run.onStore_ok hlast)
  refine ⟨?_, ?_, htoText.trans hdirect.symm, text, _, htoText, hbytes⟩
  · refine (withLiteral_of_ok hvalue hforce _).trans (Run.deferring_ok ?_ hrelease)
    rw [← hlends.literalBoolean_eq literal]
    rfl
  · refine (withLiteral_of_ok hvalue hforce _).trans (Run.deferring_ok ?_ hrelease)
    rw [← hlends.literalNumber_eq literal]
    rfl

end Conversion

/-! ### Conversions along a chain -/

variable (hleads : machine.environment.Leads steps cell last)

include hleads

theorem convertsAs_of_leads {literal : Value}
    (hvalue : machine.environment.value? last = some literal)
    (hliteral : literal.isLiteral = true) (husable : machine.store.Usable literal)
    (hlt : steps < evaluator.budget) : evaluator.ConvertsAs (.variable cell) literal machine := by
  obtain ⟨after, hlends⟩ := husable.exists_lends hliteral
  refine convertsAs_of_force rfl hliteral husable hlends ?_
  obtain ⟨more, hbudget⟩ := Nat.exists_eq_add_of_lt hlt
  rw [force_variable, hbudget, Nat.add_assoc, forceWithin_add hleads,
    forceWithin_succ_of_ok (Run.read_of_some hvalue hlends.retain_eq)]
  unfold forceWithin
  rw [hliteral]
  rfl

theorem failsToConvert_of_unassigned (hvalue : machine.environment.value? last = none)
    (hlt : steps < evaluator.budget) :
    evaluator.FailsToConvert (.variable cell) (.unassigned (machine.environment.name last))
      machine := by
  refine failsToConvert_of_force rfl ?_
  obtain ⟨more, hbudget⟩ := Nat.exists_eq_add_of_lt hlt
  rw [force_variable, hbudget, Nat.add_assoc, forceWithin_add hleads]
  exact forceWithin_succ_of_error (Run.read_of_unassigned hvalue) more

theorem failsToConvert_of_le (hle : evaluator.budget ≤ steps) :
    evaluator.FailsToConvert (.variable cell) (.evaluationDepth machine.maxDepth) machine := by
  refine failsToConvert_of_force rfl ?_
  rw [force_variable]
  exact forceWithin_of_le hleads hle

theorem failsToConvert_of_circle {period : Nat}
    (hcircle : machine.environment.Leads (period + 1) last last) :
    evaluator.FailsToConvert (.variable cell) (.evaluationDepth machine.maxDepth) machine := by
  -- Going round often enough makes the chain as long as one likes.
  have hlong := hleads.trans (hcircle.rounds evaluator.budget)
  refine failsToConvert_of_le hlong ?_
  exact (Nat.le_mul_of_pos_right _ period.succ_pos).trans (Nat.le_add_left _ steps)

omit hleads

theorem lt_budget_within_iff (fuel : Nat) (machine : Machine) (steps : Nat) :
    steps < (within fuel machine).budget ↔
      ((steps + 1 : Nat) : Int) ≤ machine.maxDepth - machine.depth := by
  change steps < (machine.maxDepth - machine.depth).toNat ↔ _
  omega

end Evaluator

open Evaluator

/-- The first of `steps + 1` variables is converted, each of which holds a reference to the next. If
the last one holds a literal, the conversion gives what the literal converts to, and if it is
unassigned, the conversion fails for that reason, as long as this many applications may still nest;
if not, or if the last one leads back to itself, the nesting is too deep. A conversion that fails
leaves the machine as it was. -/
theorem Environment.Leads.conversions {machine : Machine} {steps cell last : Nat}
    (hleads : machine.environment.Leads steps cell last) (fuel : Nat) :
    (∀ literal, machine.environment.value? last = some literal → literal.isLiteral = true →
      machine.store.Usable literal →
        if ((steps + 1 : Nat) : Int) ≤ machine.maxDepth - machine.depth then
          (within fuel machine).ConvertsAs (.variable cell) literal machine
        else
          (within fuel machine).FailsToConvert (.variable cell) (.evaluationDepth machine.maxDepth)
            machine) ∧
    (∀ period, machine.environment.Leads (period + 1) last last →
      (within fuel machine).FailsToConvert (.variable cell) (.evaluationDepth machine.maxDepth)
        machine) ∧
    (machine.environment.value? last = none →
      (within fuel machine).FailsToConvert (.variable cell)
        (if ((steps + 1 : Nat) : Int) ≤ machine.maxDepth - machine.depth then
          .unassigned (machine.environment.name last)
        else .evaluationDepth machine.maxDepth) machine) := by
  have hlimit := lt_budget_within_iff fuel machine steps
  refine ⟨fun literal hvalue hliteral husable => ?_, fun period hcircle => ?_, fun hvalue => ?_⟩
  · split_ifs with hroom
    · exact convertsAs_of_leads hleads hvalue hliteral husable (hlimit.mpr hroom)
    · exact failsToConvert_of_le hleads (Nat.le_of_not_lt (mt hlimit.mp hroom))
  · exact failsToConvert_of_circle hleads hcircle
  · split_ifs with hroom
    · exact failsToConvert_of_unassigned hleads hvalue (hlimit.mpr hroom)
    · exact failsToConvert_of_le hleads (Nat.le_of_not_lt (mt hlimit.mp hroom))

namespace Machine

/-- The payload of what a variable holds has not been freed, whatever the host has done. -/
theorem Reachable.usable_of_value? {machine : Machine} {owned : Multiset Value} {cell : Nat}
    {value : Value} (hreachable : Reachable machine owned)
    (hvalue : machine.environment.value? cell = some value) : machine.store.Usable value := by
  have hmem : value ∈ machine.environment.holds + owned :=
    Multiset.mem_add.mpr (Or.inl (Environment.mem_holds_of_value? hvalue))
  exact Store.usable_of_exists_live
    (hreachable.inStep.balanced.live_of_mem (Multiset.mem_add.mpr (Or.inr hmem)))

/-- Chains of references: three variables with a string behind them, one that leads to a circle, and
one that leads to an unassigned variable. -/
def chaining : Operation :=
  .evaluate { unread := "; = c '12' ; = b B c ; = a B b ; = l B l ; = s B l = u B z" } "EVAL"

theorem perform_chaining :
    (match chaining.perform 0 {} with
    | .error _ _ => false
    | .ok answer after => decide (answer = .value (.variable 6) ∧ after.depth = 0 ∧
        after.environment.cells =
          #[{ name := "c", value := some (.string (.owned 0)) },
            { name := "b", value := some (.variable 0) },
            { name := "a", value := some (.variable 1) },
            { name := "l", value := some (.variable 3) },
            { name := "s", value := some (.variable 3) },
            { name := "u", value := some (.variable 6) }, { name := "z" }])) = true := by
  decide +kernel

/-- The three variables can be converted three applications below the limit, and cannot be two
below it. -/
theorem conversions_chaining :
    ∃ machine : Machine, machine.environment.Leads 2 2 0 ∧ machine.environment.Leads 1 4 3 ∧
      machine.environment.Leads 1 5 6 ∧
      ∀ fuel,
        (within fuel { machine with depth := 7, maxDepth := 10 }).ConvertsAs (.variable 2)
          (.string (.owned 0)) { machine with depth := 7, maxDepth := 10 } ∧
        (within fuel { machine with depth := 8, maxDepth := 10 }).FailsToConvert (.variable 2)
          (.evaluationDepth 10) { machine with depth := 8, maxDepth := 10 } ∧
        (within fuel { machine with depth := 7, maxDepth := 10 }).FailsToConvert (.variable 4)
          (.evaluationDepth 10) { machine with depth := 7, maxDepth := 10 } ∧
        (within fuel { machine with depth := 7, maxDepth := 10 }).FailsToConvert (.variable 5)
          (.unassigned "z") { machine with depth := 7, maxDepth := 10 } := by
  have hchaining := perform_chaining
  split at hchaining
  · cases hchaining
  · next answer machine hperform =>
      rw [decide_eq_true_eq] at hchaining
      obtain ⟨rfl, -, hcells⟩ := hchaining
      have hreachable : Reachable machine {.variable 6} :=
        .answered chaining 0 (.start rfl rfl) trivial hperform
      have hvalue (cell : Nat) : machine.environment.value? cell = _ :=
        congrArg (fun cells => cells[cell]?.bind Cell.value) hcells
      have hstring : machine.environment.Leads 2 2 0 :=
        .step (hvalue 2) (.step (hvalue 1) (.refl 0))
      have hcircle : machine.environment.Leads 1 4 3 := .step (hvalue 4) (.refl 3)
      have hround : machine.environment.Leads 1 3 3 := .step (hvalue 3) (.refl 3)
      have hopen : machine.environment.Leads 1 5 6 := .step (hvalue 5) (.refl 6)
      have husable := hreachable.usable_of_value? (hvalue 0)
      have hname : machine.environment.name 6 = "z" :=
        congrArg (fun cells => (cells[6]?.map Cell.name).getD []) hcells
      refine ⟨machine, hstring, hcircle, hopen, fun fuel => ?_⟩
      let near : Machine := { machine with depth := 7, maxDepth := 10 }
      let far : Machine := { machine with depth := 8, maxDepth := 10 }
      have hnear := @Environment.Leads.conversions near 2 2 0 hstring fuel
      have hfar := @Environment.Leads.conversions far 2 2 0 hstring fuel
      have hgives := hnear.1 _ (hvalue 0) rfl husable
      have hdeep := hfar.1 _ (hvalue 0) rfl husable
      have hturns := (@Environment.Leads.conversions near 1 4 3 hcircle fuel).2.1 0 hround
      have hends := (@Environment.Leads.conversions near 1 5 6 hopen fuel).2.2 (hvalue 6)
      rw [if_pos (by simp [near])] at hgives hends
      rw [if_neg (by simp [far])] at hdeep
      rw [show near.environment.name 6 = "z" from hname] at hends
      exact ⟨hgives, hdeep, hturns, hends⟩

end Machine

end KnightLang
