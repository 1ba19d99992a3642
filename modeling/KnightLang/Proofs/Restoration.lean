import KnightLang.Proofs.Contract
import KnightLang.Proofs.Ownership
import KnightLang.Proofs.Renaming

/-!
Pure operations leave no trace. A run of them changes neither variables nor anything outside the
machine; and as every payload has as many references as owners before and after, the payloads are
then what they were as soon as the result is released.
-/

namespace KnightLang

theorem Store.mem_args_of_arg_eq {store : Store} {index position child : Nat}
    (harg : store.arg index position = .expr child) : .expr child ∈ store.args index := by
  unfold arg at harg
  cases hnode : store.node? index with
  | none => simp [hnode] at harg
  | some node =>
      rw [hnode] at harg
      rw [args_of_node? hnode]
      simp only [List.getD_eq_getElem?_getD] at harg
      cases hfound : node.args[position]? with
      | none => simp [hfound] at harg
      | some value =>
          rw [hfound, Option.getD_some] at harg
          exact harg ▸ List.mem_of_getElem? hfound

theorem Store.eq_of_reaches {store : Store} {index other : Nat}
    (hargs : ∀ child, .expr child ∉ store.args index)
    (hreaches : store.Reaches (.expr index) other) : other = index := by
  induction hreaches with
  | self hvalue => exact (Value.expr.inj hvalue).symm
  | argument _ hmem ih =>
      rw [ih] at hmem
      exact absurd hmem (hargs _)

namespace Machine

/-- Only the store is different, and diagnostics if applications are traced. -/
structure Undisturbed (before after : Machine) : Prop where
  environment : after.environment = before.environment
  random : after.random = before.random
  trace : after.trace = before.trace
  visited : after.visited = before.visited
  world : ∃ notices, after.world = { before.world with notices }
  untraced : before.trace = false → after.world = before.world

/-- The payloads are what they were as well: the same ones are live, with the same contents and
references. -/
structure Restored (before after : Machine) : Prop extends Undisturbed before after where
  refs? : ∀ value, after.store.refs? value = before.store.refs? value
  live? : ∀ value, after.store.live? value = before.store.live? value

variable {start machine after counting lasting : Machine} {owned : Multiset Value} {value : Value}

/-! ### What pure operations keep -/

namespace Undisturbed

theorem refl (machine : Machine) : machine.Undisturbed machine where
  environment := rfl
  random := rfl
  trace := rfl
  visited := rfl
  world := ⟨_, rfl⟩
  untraced _ := rfl

theorem store (hundisturbed : start.Undisturbed machine) (store : Store) :
    start.Undisturbed { machine with store } where
  environment := hundisturbed.environment
  random := hundisturbed.random
  trace := hundisturbed.trace
  visited := hundisturbed.visited
  world := hundisturbed.world
  untraced := hundisturbed.untraced

theorem enter (hundisturbed : start.Undisturbed machine) (function : Function) :
    start.Undisturbed (machine.enter function) := by
  obtain ⟨notices, hworld⟩ := hundisturbed.world
  unfold Machine.enter
  dsimp only
  split_ifs with htrace
  · exact
      { environment := hundisturbed.environment
        random := hundisturbed.random
        trace := hundisturbed.trace
        visited := hundisturbed.visited
        world := ⟨_ :: notices, by rw [World.log, hworld]⟩
        untraced := fun huntraced =>
          absurd (hundisturbed.trace.symm.trans htrace) (by simp [huntraced]) }
  · exact
      { environment := hundisturbed.environment
        random := hundisturbed.random
        trace := hundisturbed.trace
        visited := hundisturbed.visited
        world := ⟨notices, hworld⟩
        untraced := hundisturbed.untraced }

theorem leave (hundisturbed : start.Undisturbed machine) : start.Undisturbed machine.leave where
  environment := hundisturbed.environment
  random := hundisturbed.random
  trace := hundisturbed.trace
  visited := hundisturbed.visited
  world := hundisturbed.world
  untraced := hundisturbed.untraced

end Undisturbed

section Purely

variable (start : Machine) (value : Value) (honly : start.store.Only Builtin.IsPure value)
  (hcells : start.environment.HoldsLiterals)

/-- What a run of pure operations that begins with a value keeps to, where variables hold
literals: it meets no application that cannot be reached from the value at the start. -/
def purely : Contract where
  allows := Builtin.IsPure
  acts := False
  holds machine := start.Undisturbed machine ∧ start.store.Clears machine.store
  expects _ := True
  may _ other := other.Within { index | start.store.Reaches value index }
  becomes _ _ := True
  gives other := other.Within { index | start.store.Reaches value index }
  inside _ node _ := start.store.Reaches value node
  allows_ne {operation} hpure := by cases operation <;> simp_all [Builtin.IsPure]
  acts_of hpure himpure := himpure hpure
  expects_error _ := trivial
  expects_cut _ := trivial
  expects_nested _ _ := trivial
  expects_stuck _ _ _ := trivial
  may_literal hliteral := Value.within_of_isLiteral hliteral
  becomes_literal _ := trivial
  becomes_expr _ := trivial
  gives_literal hliteral := Value.within_of_isLiteral hliteral
  gives_may hwithin := hwithin
  gives_becomes _ := trivial
  gives_cell {machine cell held} hholds hheld := by
    rw [hholds.1.environment] at hheld
    exact Value.within_of_isLiteral (hcells cell held hheld)
  gives_block _ hwithin := hwithin
  enters {machine _ node found} hholds hwithin hfound := by
    obtain ⟨old, hold, hfunction, -⟩ := hholds.2.nodes node found hfound
    have hreaches : start.store.Reaches value node := hwithin node rfl
    obtain ⟨operation, haction, hpure⟩ := honly node old hreaches hold
    exact ⟨operation, by rw [hfunction, haction], hpure, hreaches⟩
  may_operand {machine _ node _} position hholds hreaches := by
    rcases hholds.2.arg node position with hsame | hnull
    · intro child hchild
      rw [hsame] at hchild
      exact .argument hreaches (Store.mem_args_of_arg_eq hchild)
    · rw [hnull]
      exact Value.within_of_isLiteral rfl
  becomes_operand _ _ _ := trivial
  enter {machine} function hholds := by
    refine ⟨hholds.1.enter function, ?_⟩
    rw [(machine.enter_contents function).2.2]
    exact hholds.2
  leave hholds := ⟨hholds.1.leave, hholds.2⟩
  store hholds hclears := ⟨hholds.1.store _, hholds.2.trans hclears⟩
  outside hacts := hacts.elim
  fetch _ hacts := hacts.elim
  assign _ hacts := hacts.elim

end Purely

/-! ### What counting references restores -/

/-- When the same is held as before, by variables and otherwise, the payloads are what they were. -/
theorem InStep.payloads_eq (hstart : start.InStep owned start start)
    (instep : start.InStep owned counting lasting)
    (hholds : counting.environment.holds = start.environment.holds) (value : Value) :
    counting.store.refs? value = start.store.refs? value ∧
      counting.store.live? value = start.store.live? value := by
  refine hstart.balanced.payloads_eq (hholds ▸ instep.balanced) ?_ value
  intro other payload payload' hbefore hafter
  have hsame := instep.continues.live other payload' (Store.made_of_live? hbefore) hafter
  rw [hbefore] at hsame
  exact (Option.some.inj hsame).symm

theorem Undisturbed.restored (hundisturbed : start.Undisturbed counting)
    (hstart : start.InStep owned start start) (instep : start.InStep owned counting lasting) :
    start.Restored counting where
  toUndisturbed := hundisturbed
  refs? value :=
    (hstart.payloads_eq instep (congrArg Environment.holds hundisturbed.environment) value).1
  live? value :=
    (hstart.payloads_eq instep (congrArg Environment.holds hundisturbed.environment) value).2

/-- A run of pure operations leaves no trace: whether it ends with a value, which is then released,
or with an error, the variables, the payloads and everything outside the machine are what they
were. -/
theorem Reachable.run_restores (hreachable : Reachable machine owned)
    (hguards : machine.Guards owned value) (honly : machine.store.Only Builtin.IsPure value)
    (hcells : machine.environment.HoldsLiterals) (fuel : Nat) :
    match (Evaluator.within fuel machine).run value machine with
    | .ok result middle => ∃ after, Run.release result middle = .ok ⟨⟩ after ∧
        machine.Restored after
    | .error (.error _) after => machine.Restored after
    | .error (.fault _) _ => False
    | .error .exhausted _ => True := by
  have hstart := hreachable.inStep
  let contract := machine.purely value honly hcells
  have hmay : value.Within { index | machine.store.Reaches value index } :=
    fun index hvalue => .self hvalue
  have hrun : contract.Keeps contract.gives ((Evaluator.within fuel machine).run value) :=
    contract.keeps_run fuel hmay
  have hmeets := hrun machine ⟨.refl machine, .refl machine.store⟩
  have hlockstep := Run.Lockstep.run (Evaluator.twins_within fuel hstart) hstart hguards
  split
  · next result middle hresult =>
      rw [hresult] at hmeets hlockstep
      obtain ⟨lasting, -, hend⟩ := hlockstep.of_ok
      obtain ⟨after, hrelease, -, hreleased⟩ := hend.release
      have hreleases : contract.Keeps (fun _ => True) (Run.release result) :=
        Contract.keeps_release result
      have hkept := hreleases middle hmeets.2
      rw [hrelease] at hkept
      exact ⟨after, hrelease, hkept.2.1.restored hstart hreleased⟩
  · next error after hresult =>
      rw [hresult] at hmeets hlockstep
      obtain ⟨lasting, -, hend⟩ := hlockstep.of_error
      exact hmeets.2.1.restored hstart hend
  · next fault after hresult =>
      rw [hresult] at hlockstep
      cases hlockstep
  · trivial

/-- Puts a string into a variable and gives an expression that joins the string to itself. -/
def doubling : Operation := .evaluate { unread := "; = s 'abc' B + s s" } "EVAL"

theorem perform_doubling :
    (match doubling.perform 0 {} with
    | .error _ _ => false
    | .ok answer after => decide (answer = .value (.expr 1) ∧
        after.store.args 1 = [.variable 0, .variable 0] ∧
        ((after.store.node? 1).map fun node => node.function.action) = some (.builtin .add) ∧
        after.environment.cells = #[{ name := "s", value := some (.string (.owned 0)) }]) &&
        (match (Evaluator.within 0 after).run (.expr 1) after with
        | .ok result _ => decide (result = .string (.owned 1))
        | .error _ _ => false)) = true := by
  decide +kernel

theorem Reachable.run_restores_doubling :
    ∃ machine, Reachable machine {.expr 1} ∧ machine.Guards {.expr 1} (.expr 1) ∧
      machine.store.Only Builtin.IsPure (.expr 1) ∧ machine.environment.HoldsLiterals ∧
      ∃ middle after,
        (Evaluator.within 0 machine).run (.expr 1) machine = .ok (.string (.owned 1)) middle ∧
        Run.release (.string (.owned 1)) middle = .ok ⟨⟩ after ∧ machine.Restored after := by
  have hdoubling := perform_doubling
  split at hdoubling
  · cases hdoubling
  · next answer machine hperform =>
      rw [Bool.and_eq_true, decide_eq_true_eq] at hdoubling
      obtain ⟨⟨rfl, hargs, haction, henvironment⟩, hrun⟩ := hdoubling
      have hstart : Reachable {} 0 := .start rfl rfl
      have hreachable : Reachable machine {.expr 1} := .answered doubling 0 hstart trivial hperform
      have hguards : machine.Guards {.expr 1} (.expr 1) := .held (Multiset.mem_singleton_self _)
      have honly : machine.store.Only Builtin.IsPure (.expr 1) := by
        intro index node hreaches hnode
        obtain rfl := Store.eq_of_reaches (by simp [hargs]) hreaches
        rw [hnode] at haction
        exact ⟨.add, Option.some.inj haction, trivial⟩
      have hcells : machine.environment.HoldsLiterals := by
        intro cell held hheld
        have hmem := Environment.mem_holds_of_value? hheld
        rw [Environment.holds, henvironment] at hmem
        obtain rfl : held = .string (.owned 0) := by simpa [Cell.holds] using hmem
        rfl
      have hrestores := hreachable.run_restores hguards honly hcells 0
      split at hrun
      · next result middle hresult =>
          obtain rfl := of_decide_eq_true hrun
          rw [hresult] at hrestores
          obtain ⟨after, hrelease, hrestored⟩ := hrestores
          exact ⟨machine, hreachable, hguards, honly, hcells, middle, after, hresult, hrelease,
            hrestored⟩
      · cases hrun

end Machine

end KnightLang
