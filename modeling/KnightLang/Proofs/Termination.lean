import KnightLang.Proofs.Limits.Cutoff
import KnightLang.Proofs.Ownership

/-!
Only loops can go on for ever. A run that cannot come to a loop never uses up its turns, so that it
ends in the same way whatever number of turns a loop would get.
-/

namespace KnightLang

/-- Under the same limits and without loops, only a broken rule of ownership sets two runs apart. -/
theorem Relaxation.Alike.eq_or_fault {start : Machine} {allowed : Builtin → Prop} {area : Set Nat}
    {confined : start.Confined allowed area} {hdepth : start.depth ≤ start.depth}
    {hlimit : start.maxDepth ≤ start.maxDepth}
    {himplies : start.checked = true → start.checked = true} {α : Type} {good : α → Prop}
    {first second : EStateM.Result Stop Machine α}
    (halike : (confined.relaxed hdepth hlimit himplies).Alike 0 good first second)
    (hloop : ¬allowed .whileLoop) :
    (∀ after, first ≠ .error .exhausted after) ∧
      (second = first ∨ ∃ fault after, first = .error (.fault fault) after) := by
  have hsame {machine : Machine} {notices : List Notice}
      (beside : (confined.relaxed hdepth hlimit himplies).Beside 0 machine notices) :
      (confined.relaxed hdepth hlimit himplies).loosened 0 machine notices = machine := by
    have hchecked : machine.checked = start.checked := beside.checked
    rw [beside.loosened_eq ⟨rfl, rfl⟩, ← hchecked]
  cases halike with
  | ok _ beside =>
      rw [hsame beside]
      exact ⟨by simp, Or.inl rfl⟩
  | error beside =>
      rw [hsame beside]
      exact ⟨by simp, Or.inl rfl⟩
  | @cut stop machine _ hcut _ =>
      cases stop with
      | error error =>
          rcases hcut with ⟨-, hdiffers⟩ | ⟨-, hdiffers⟩
          · exact absurd ⟨rfl, rfl⟩ hdiffers
          · exact absurd rfl hdiffers
      | fault fault => exact ⟨by simp, Or.inr ⟨fault, machine, rfl⟩⟩
      | exhausted => exact absurd hcut hloop

namespace Machine

variable {machine : Machine} {value : Value}

theorem Knows.run_eq_or_fault (hknows : machine.Knows (· ≠ .whileLoop))
    (honly : machine.store.Only (· ≠ .whileLoop) value) (fuel more : Nat) :
    (∀ after, (Evaluator.within fuel machine).run value machine ≠ .error .exhausted after) ∧
      ((Evaluator.within more machine).run value machine =
          (Evaluator.within fuel machine).run value machine ∨
        ∃ fault after,
          (Evaluator.within fuel machine).run value machine = .error (.fault fault) after) := by
  -- The number of turns matters only where loops are allowed.
  have hfuel : Builtin.whileLoop ≠ .whileLoop → fuel ≤ more := fun hallowed => absurd rfl hallowed
  have halike := ((hknows.confined honly).relaxed le_rfl le_rfl id).alike_run hfuel
    (machine.within_area value)
  exact halike.eq_or_fault fun hallowed => hallowed rfl

/-- A machine that owns what it says breaks no rule of ownership when it runs a value. -/
theorem Counted.run_ne_fault {owned : Multiset Value} (hcounted : machine.Counted owned)
    (hformed : machine.WellFormed owned) (hguards : machine.Guards owned value) (fuel : Nat)
    (fault : Fault) (after : Machine) :
    (Evaluator.within fuel machine).run value machine ≠ .error (.fault fault) after := by
  have instep := inStep_self (balanced_iff.mpr ⟨hcounted, hformed⟩)
  have hlockstep := Run.Lockstep.run (Evaluator.twins_within fuel instep) instep hguards
  intro hfault
  rw [hfault] at hlockstep
  cases hlockstep

/-- Without loops every run comes to an end, with a value or an error, however deep applications may
nest: it does not take a single turn of a loop. -/
theorem Knows.run_ends (hknows : machine.Knows (· ≠ .whileLoop))
    (honly : machine.store.Only (· ≠ .whileLoop) value) :
    (∀ fuel after,
      (Evaluator.within fuel machine).run value machine ≠ .error .exhausted after) ∧
    ∀ owned, machine.Counted owned → machine.WellFormed owned → machine.Guards owned value →
      (∃ result after, ∀ fuel,
        (Evaluator.within fuel machine).run value machine = .ok result after) ∨
      ∃ error after, ∀ fuel,
        (Evaluator.within fuel machine).run value machine = .error (.error error) after := by
  refine ⟨fun fuel => (hknows.run_eq_or_fault honly fuel 0).1, ?_⟩
  intro owned hcounted hformed hguards
  have heq (fuel : Nat) : (Evaluator.within fuel machine).run value machine =
      (Evaluator.within 0 machine).run value machine := by
    rcases (hknows.run_eq_or_fault honly 0 fuel).2 with heq | ⟨fault, after, hfault⟩
    · exact heq
    · exact absurd hfault (hcounted.run_ne_fault hformed hguards 0 fault after)
  cases hrun : (Evaluator.within 0 machine).run value machine with
  | ok result after => exact Or.inl ⟨result, after, fun fuel => (heq fuel).trans hrun⟩
  | error stop after =>
      cases stop with
      | error error => exact Or.inr ⟨error, after, fun fuel => (heq fuel).trans hrun⟩
      | fault fault => exact absurd hrun (hcounted.run_ne_fault hformed hguards 0 fault after)
      | exhausted => exact absurd hrun ((hknows.run_eq_or_fault honly 0 0).1 after)

/-- The table without loops. -/
def loopless : FunctionTable :=
  { entries := Builtin.all.filter fun function => function.action ≠ .builtin .whileLoop }

/-- A machine with a variable that holds a call of itself, which the host owns as well. -/
def selfCall : Machine :=
  { functions := loopless
    maxDepth := 5
    store := { nodes := #[{ function := Builtin.function 67 "CALL" 1 .call, args := [.variable 0],
                            refs := 2 }] }
    environment := { cells := #[{ name := "f", value := some (.expr 0) }] } }

theorem balanced_selfCall : selfCall.Counted {.expr 0} ∧ selfCall.WellFormed {.expr 0} := by
  have hcells : selfCall.environment.holds = {.expr 0} := rfl
  have hargs : selfCall.store.holds = {.variable 0} := rfl
  refine ⟨fun value refs hrefs => ?_, ?_, ?_⟩
  · unfold owners
    rw [hcells, hargs]
    induction value using Value.payloadCases with
    | plain value hplain => simp [hplain] at hrefs
    | text index =>
        rw [Store.refs?_owned] at hrefs
        simpa [selfCall, Store.text?, eq_comm] using hrefs
    | application index =>
        rw [Store.refs?_expr] at hrefs
        cases index with
        | zero => simpa [selfCall, Store.node?, eq_comm] using hrefs
        | succ index => simpa [selfCall, Store.node?, eq_comm] using hrefs
  · intro index node child hnode hmem
    cases index with
    | zero =>
        cases hnode
        cases hmem with
        | tail _ hmem => cases hmem
    | succ index => simp [selfCall, Store.node?] at hnode
  · intro cell hmem
    have hcell : cell = 0 := by simpa [hcells, hargs] using hmem
    simp [hcell, selfCall]

theorem Knows.run_ends_selfCall :
    ∃ after, ∀ fuel, (Evaluator.within fuel selfCall).run (.expr 0) selfCall =
      .error (.error (.raise (.evaluationDepth 5))) after := by
  have hnodes : ∀ node ∈ selfCall.store.nodes, node.function.IsAmong (· ≠ .whileLoop) := by decide
  have hknows : selfCall.Knows (· ≠ .whileLoop) := knows_of_forall (by decide) hnodes
  obtain ⟨hcounted, hformed⟩ := balanced_selfCall
  have hguards : selfCall.Guards {.expr 0} (.expr 0) := .held (Multiset.mem_singleton_self _)
  have houtcome : Run.outcome ((Evaluator.within 0 selfCall).run (.expr 0) selfCall) =
      .error (.error (.raise (.evaluationDepth 5))) := by decide +kernel
  rcases (hknows.run_ends (Store.only_of_forall hnodes _)).2 _ hcounted hformed hguards with
    ⟨result, after, hrun⟩ | ⟨error, after, hrun⟩
  · rw [hrun 0] at houtcome
    cases houtcome
  · rw [hrun 0] at houtcome
    cases houtcome
    exact ⟨after, hrun⟩

end Machine

end KnightLang
