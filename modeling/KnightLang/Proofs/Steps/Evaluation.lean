import KnightLang.Proofs.Logic.Invariants

/-!
The steps that a machine takes while it evaluates. The store takes its own steps, a cell is made for
an identifier or is given a value, and all else leaves the payloads and the variables alone. A whole
run is made of such steps, wherever it starts and however it ends.
-/

namespace KnightLang

/-- One step of a machine that evaluates. -/
inductive Machine.Step (machine : Machine) : Machine → Prop where
  | store {store : Store} : machine.store.Step store → Step machine { machine with store }
  | fetch {name : Bytes} : name.isIdentifier = true →
      Step machine { machine with environment := (machine.environment.fetch name).2 }
  | assign (cell : Nat) (value : Value) :
      Step machine { machine with environment := machine.environment.assign cell value }
  | aside {after : Machine} :
      after.store = machine.store → after.environment = machine.environment → Step machine after

namespace Machine

/-- Any number of steps. -/
def Steps : Machine → Machine → Prop := Relation.ReflTransGen Step

instance : IsPreorder Machine Steps :=
  inferInstanceAs (IsPreorder Machine (Relation.ReflTransGen Step))

variable {machine after : Machine}

theorem Step.steps (hstep : machine.Step after) : machine.Steps after :=
  Relation.ReflTransGen.single hstep

theorem steps_aside (hstore : after.store = machine.store)
    (henvironment : after.environment = machine.environment) : machine.Steps after :=
  (Step.aside hstore henvironment).steps

theorem steps_of_store {machine : Machine} {store : Store} (hsteps : machine.store.Steps store) :
    machine.Steps { machine with store } := by
  induction hsteps with
  | refl => exact refl_of Steps machine
  | tail _ hstep ih => exact Relation.ReflTransGen.tail ih (.store hstep)

/-- The steps of a machine are steps of its store. -/
theorem Steps.store (hsteps : machine.Steps after) : machine.store.Steps after.store := by
  induction hsteps with
  | refl => exact refl_of Store.Steps machine.store
  | tail _ hstep ih =>
      cases hstep with
      | store hstep => exact trans_of Store.Steps ih hstep.steps
      | fetch _ => exact ih
      | assign _ _ => exact ih
      | aside hstore _ => exact hstore.symm ▸ ih

end Machine

theorem Run.along_onStore {α : Type} {action : StoreM α} (haction : Along Store.Steps action) :
    Along Machine.Steps (onStore action) := by
  intro machine
  have hleft := haction machine.store
  unfold onStore
  dsimp only
  cases hresult : action machine.store with
  | ok value store =>
      rw [hresult] at hleft
      exact Machine.steps_of_store hleft
  | error fault store =>
      rw [hresult] at hleft
      exact Machine.steps_of_store hleft

theorem Run.along_retain (value : Value) : Along Machine.Steps (retain value) :=
  along_onStore (Store.along_retain value)

theorem Run.along_release (value : Value) : Along Machine.Steps (release value) :=
  along_onStore (Store.along_release value)

/-! ### The logic of what lasts along steps -/

section Lasting

variable {relation : Machine → Machine → Prop} [IsPreorder Machine relation] {α : Type}
  {action : Run α}

theorem Along.keeps (haction : Along relation action) (start : Machine) :
    Run.Keeps (relation start) (fun _ => True) (fun _ => True) action := by
  intro machine hmachine
  have hleft := (haction machine).weaken fun after hafter => trans_of relation hmachine hafter
  generalize action machine = result at hleft ⊢
  cases result with
  | ok value after => exact ⟨trivial, hleft⟩
  | error stop after => exact ⟨trivial, hleft⟩

theorem Along.of_keeps {good : α → Prop}
    (hkeeps : ∀ start, Run.Keeps (relation start) (fun _ => True) good action) :
    Along relation action := by
  intro machine
  have hmeets := hkeeps machine machine (refl_of relation machine)
  generalize action machine = result at hmeets ⊢
  cases result with
  | ok value after => exact hmeets.2
  | error stop after => exact hmeets.2

/-- Evaluation does whatever it does to a machine by steps, so that what steps keep up lasts. -/
def Evaluator.lasting (evaluator : Evaluator)
    (hsteps : ∀ machine after : Machine, machine.Steps after → relation machine after)
    (happly : ∀ node, Along relation (evaluator.apply node)) (start : Machine) :
    Logic evaluator.budget evaluator.fuel :=
  have along {α : Type} {action : Run α} (haction : Along Machine.Steps action) :
      Run.Keeps (relation start) (fun _ => True) (fun _ => True) action :=
    Along.keeps (fun machine => (haction machine).weaken (hsteps machine)) start
  { Keeps := fun good plan =>
      Run.Keeps (relation start) (fun _ => True) good (plan evaluator.apply)
    holds := relation start
    allows := fun _ => True
    acts := True
    lists := fun _ => True
    expects := fun _ => True
    may := fun _ => True
    becomes := fun _ _ => True
    gives := fun _ => True
    pure := .pure
    bind := .bind
    look := .get
    throw := fun hstop => .throw hstop
    deferring := .deferring (along (Run.along_release _))
    concluding := .concluding (along (Run.along_release _))
    onError := .onError (along (Run.along_release _))
    onStore := fun haction _ => .onStore (fun _ => trivial) fun machine hmachine =>
      (haction machine.store).weaken fun _ hstore =>
        trans_of relation hmachine (hsteps _ _ (Machine.steps_of_store hstore))
    addNode := fun _ _ _ => along (Run.along_onStore (Store.along_addNode _ _))
    fetch := fun _ hname => along fun _ => (Machine.Step.fetch hname).steps
    update := fun cell _ _ => along fun _ => (Machine.Step.assign cell _).steps
    askWorld := fun _ _ _ => along fun _ => Machine.steps_aside rfl rfl
    readLine := fun _ => along fun _ => Machine.steps_aside rfl rfl
    drawRandom := fun _ => along fun _ => Machine.steps_aside rfl rfl
    apply := fun _ => Along.keeps (happly _) start
    acts_of := fun _ _ => trivial
    lists_of := fun _ _ => trivial
    expects_ordinary := fun _ _ => trivial
    expects_cut := fun _ => trivial
    expects_quit := fun _ _ => trivial
    expects_stuck := fun _ _ _ => trivial
    expects_unread := fun _ _ => trivial
    may_variable := fun _ => trivial
    may_literal := fun _ => trivial
    becomes_literal := fun _ => trivial
    becomes_expr := fun _ => trivial
    becomes_read := fun _ _ => trivial
    gives_literal := fun _ => trivial
    gives_may := fun _ => trivial
    gives_becomes := fun _ => trivial
    gives_cell := fun _ _ => trivial
    gives_block := fun _ _ => trivial }

end Lasting

namespace Evaluator

open Machine

section Stepping

variable {evaluator : Evaluator} (happly : ∀ node, Along Steps (evaluator.apply node))

/-- Evaluation takes steps. -/
def stepping (start : Machine) : Logic evaluator.budget evaluator.fuel :=
  evaluator.lasting (fun _ _ => id) happly start

include happly

theorem along_run (value : Value) : Along Steps (evaluator.run value) :=
  .of_keeps fun start => (stepping happly start).run trivial

theorem along_toText (value : Value) : Along Steps (evaluator.toText value) :=
  .of_keeps fun start => (stepping happly start).toText trivial trivial

theorem along_evaluate (source : Source) (label : Bytes) :
    Along Steps (evaluator.evaluate source label) :=
  .of_keeps fun start => (stepping happly start).evaluate trivial source label

theorem inside_stepping (start : Machine) (node : Nat) (converts : Nat → Prop) :
    (stepping happly start).Inside node converts :=
  ⟨fun _ _ => trivial, fun _ _ => trivial⟩

theorem along_assignTo (node cell : Nat) : Along Steps (evaluator.assignTo node cell) :=
  .of_keeps fun start =>
    Logic.assignTo (inside_stepping happly start node fun _ => True) trivial cell

theorem keeps_act (start : Machine) (node : Nat) (action : Action) :
    Run.Keeps start.Steps (fun _ => True) (fun _ => True) (evaluator.act node action) := by
  have hinside := inside_stepping happly start node
  cases action with
  | builtin operation => exact (stepping happly start).perform trivial (hinside _)
  | host action => exact (stepping happly start).performHost (hinside _) (fun _ => trivial) action

end Stepping

/-- Applications take steps, however many of them may nest. -/
theorem along_applyWithin (fuel budget node : Nat) :
    Along Steps (applyWithin fuel budget node) := by
  induction budget generalizing node with
  | zero =>
      intro machine
      exact refl_of Steps machine
  | succ budget ih =>
      have hkeeps (start : Machine) : Run.Keeps start.Steps (fun _ => True) (fun _ => True)
          (applyWithin fuel (budget + 1) node) := by
        intro machine hmachine
        cases hfound : machine.store.node? node with
        | none =>
            rw [applyWithin_of_none hfound]
            exact ⟨trivial, hmachine⟩
        | some found =>
            obtain ⟨-, henvironment, hstore⟩ := machine.enter_contents found.function
            have henter : machine.Steps (machine.enter found.function) :=
              steps_aside hstore henvironment
            have hleave (after : Machine) : after.Steps after.leave := steps_aside rfl rfl
            rw [applyWithin_of_some hfound]
            refine .leaving (fun after hafter => trans_of Steps hafter (hleave after)) ?_
            exact keeps_act ih start node _ _ (trans_of Steps hmachine henter)
      exact .of_keeps hkeeps

theorem along_within (fuel : Nat) (machine : Machine) (node : Nat) :
    Along Steps ((within fuel machine).apply node) :=
  along_applyWithin fuel _ node

end Evaluator

end KnightLang
