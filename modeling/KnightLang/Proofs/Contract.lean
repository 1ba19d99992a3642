import KnightLang.Proofs.Logic.Invariants

/-!
Contracts of evaluation. A contract says which values may be evaluated with how much room, what is
true of every machine on the way, what is true of every value that comes out, and which stops can
occur. It is enough to check it on the steps of a run: whatever is evaluated under it then keeps it.
-/

namespace KnightLang

namespace Store

/-- The same applications, in which arguments may have been cleared. -/
structure Clears (before after : Store) : Prop where
  nodes_size : after.nodes.size = before.nodes.size
  nodes : ∀ index node, after.node? index = some node → ∃ old, before.node? index = some old ∧
    node.function = old.function ∧ ∀ position,
      node.args.getD position .null = old.args.getD position .null ∨
        node.args.getD position .null = .null

namespace Clears

variable {before middle after : Store}

theorem refl (store : Store) : store.Clears store where
  nodes_size := rfl
  nodes _ node hnode := ⟨node, hnode, rfl, fun _ => Or.inl rfl⟩

theorem trans (first : before.Clears middle) (second : middle.Clears after) :
    before.Clears after where
  nodes_size := second.nodes_size.trans first.nodes_size
  nodes index node hnode := by
    obtain ⟨between, hbetween, hfunction, hargs⟩ := second.nodes index node hnode
    obtain ⟨old, hold, hfunction', hargs'⟩ := first.nodes index between hbetween
    refine ⟨old, hold, hfunction.trans hfunction', fun position => ?_⟩
    rcases hargs position with hsame | hnull
    · rw [hsame]
      exact hargs' position
    · exact Or.inr hnull

theorem of_nodes_eq (hnodes : after.nodes = before.nodes) : before.Clears after where
  nodes_size := by rw [hnodes]
  nodes index node hnode := by
    rw [node?, hnodes] at hnode
    exact ⟨node, hnode, rfl, fun _ => Or.inl rfl⟩

theorem modifyNode (store : Store) (index : Nat) (change : Node → Node)
    (hfunction : ∀ node, (change node).function = node.function)
    (hargs : ∀ node position, (change node).args.getD position .null =
      node.args.getD position .null ∨ (change node).args.getD position .null = .null) :
    store.Clears { store with nodes := store.nodes.modify index change } where
  nodes_size := by simp
  nodes other node hnode := by
    rw [node?_modify] at hnode
    split_ifs at hnode
    · obtain ⟨old, hold, rfl⟩ := Option.map_eq_some_iff.mp hnode
      exact ⟨old, hold, hfunction old, hargs old⟩
    · exact ⟨node, hnode, rfl, fun _ => Or.inl rfl⟩

/-- What stands in an argument slot afterwards stood there before, or is null. -/
theorem arg (hclears : before.Clears after) (index position : Nat) :
    after.arg index position = before.arg index position ∨ after.arg index position = .null := by
  unfold Store.arg
  cases hnode : after.node? index with
  | none => exact Or.inr rfl
  | some node =>
      obtain ⟨old, hold, -, hargs⟩ := hclears.nodes index node hnode
      rw [hold]
      exact hargs position

end Clears

variable {store after : Store}

theorem Step.clears_or_grows (hstep : store.Step after) :
    store.Clears after ∨ store.nodes.size < after.nodes.size := by
  cases hstep with
  | addText contents => exact Or.inl (.of_nodes_eq rfl)
  | addNode function args => exact Or.inr (by simp)
  | countText _ _ _ _ => exact Or.inl (.of_nodes_eq rfl)
  | countNode _ _ _ _ =>
      exact Or.inl (.modifyNode store _ _ (fun _ => rfl) fun _ _ => Or.inl rfl)
  | freeText _ _ => exact Or.inl (.of_nodes_eq rfl)
  | freeNode _ _ =>
      exact Or.inl (.modifyNode store _ _ (fun _ => rfl) fun _ _ => Or.inl rfl)
  | clearArg position _ _ =>
      refine Or.inl (.modifyNode store _ _ (fun _ => rfl) fun node other => ?_)
      by_cases hother : position = other
      · subst hother
        by_cases hlt : position < node.args.length <;> simp [hlt]
      · simp [hother]

/-- Steps that make no application only clear arguments. -/
theorem Steps.clears_or_grows (hsteps : store.Steps after) :
    store.Clears after ∨ store.nodes.size < after.nodes.size := by
  induction hsteps with
  | refl => exact Or.inl (.refl store)
  | @tail middle last _ hstep ih =>
      rcases hstep.clears_or_grows with hclears | hgrows
      · rcases ih with hbefore | hbefore
        · exact Or.inl (hbefore.trans hclears)
        · rw [← hclears.nodes_size] at hbefore
          exact Or.inr hbefore
      · have hle := ih.elim (fun hbefore => hbefore.nodes_size.ge) Nat.le_of_lt
        exact Or.inr (hle.trans_lt hgrows)

theorem Steps.clears (hsteps : store.Steps after) (htrims : store.Trims after) :
    store.Clears after :=
  hsteps.clears_or_grows.resolve_right htrims.nodes_size.not_gt

/-- An action that takes steps and makes no application only clears arguments. -/
theorem leftIn_clears {α : Type} {action : StoreM α} (hsteps : Along Steps action)
    (htrims : Trimming action) (store : Store) : LeftIn store.Clears (action store) := by
  have hleft := hsteps store
  cases hresult : action store with
  | ok value after =>
      rw [hresult] at hleft
      exact Steps.clears hleft (htrims.ok hresult)
  | error fault after =>
      rw [hresult] at hleft
      exact Steps.clears hleft (htrims.error hresult)

end Store

/-! ### Variables that hold literals -/

def Environment.HoldsLiterals (environment : Environment) : Prop :=
  ∀ cell held, environment.value? cell = some held → held.isLiteral = true

namespace Environment.HoldsLiterals

variable {environment : Environment}

theorem fetch (hliterals : environment.HoldsLiterals) (name : Bytes) :
    (environment.fetch name).2.HoldsLiterals := by
  intro cell held hheld
  refine hliterals cell held ?_
  unfold Environment.fetch at hheld
  split at hheld
  · exact hheld
  · simp only [value?, Array.getElem?_push] at hheld
    split_ifs at hheld
    · cases hheld
    · exact hheld

theorem assign {value : Value} (hliterals : environment.HoldsLiterals)
    (hliteral : value.isLiteral = true) (cell : Nat) :
    (environment.assign cell value).HoldsLiterals := by
  intro other held hheld
  simp only [Environment.assign, value?, Array.getElem?_modify] at hheld
  split_ifs at hheld
  · obtain ⟨old, hold, hvalue⟩ := Option.bind_eq_some_iff.mp hheld
    obtain ⟨before, -, rfl⟩ := Option.map_eq_some_iff.mp hold
    cases hvalue
    exact hliteral
  · exact hliterals other held hheld

end Environment.HoldsLiterals

/-! ### Contracts -/

/-- What evaluation may count on and what it promises. `may budget value` says that a value may be
evaluated where `budget` more applications may nest, and `inside budget node operation` that an
application may perform an operation where `budget` more may nest inside it. -/
structure Contract where
  allows : Builtin → Prop
  /-- Whether anything but the store may change. -/
  acts : Prop
  holds : Machine → Prop
  expects : Stop → Prop
  may : Nat → Value → Prop
  /-- Values that become literals in at most so many steps. -/
  becomes : Nat → Value → Prop
  /-- What evaluation gives. -/
  gives : Value → Prop
  inside : Nat → (node : Nat) → Builtin → Prop
  allows_ne : ∀ {operation : Builtin}, allows operation → operation ≠ .eval ∧ operation ≠ .call
  acts_of : ∀ {operation : Builtin}, allows operation → ¬operation.IsPure → acts
  expects_error : ∀ {error : Error}, error.kind ≠ .depth → expects (.error error)
  expects_cut : ∀ {stop : Stop}, stop.IsCut → expects stop
  expects_nested : ∀ {node : Nat} (limit : Int), may 0 (.expr node) →
    expects (.error (.raise (.evaluationDepth limit)))
  expects_stuck : ∀ {value : Value} (limit : Int), becomes 0 value → value.isLiteral = false →
    expects (.error (.raise (.evaluationDepth limit)))
  may_literal : ∀ {budget : Nat} {value : Value}, value.isLiteral = true → may budget value
  becomes_literal : ∀ {steps : Nat} {value : Value}, value.isLiteral = true → becomes steps value
  becomes_expr : ∀ {budget node : Nat}, may budget (.expr node) → becomes budget (.expr node)
  gives_literal : ∀ {value : Value}, value.isLiteral = true → gives value
  gives_may : ∀ {budget : Nat} {value : Value}, gives value → may budget value
  gives_becomes : ∀ {steps : Nat} {value : Value}, gives value → becomes steps value
  gives_cell : ∀ {machine : Machine} {cell : Nat} {value : Value}, holds machine →
    machine.environment.value? cell = some value → gives value
  gives_block : ∀ {budget : Nat} {value : Value}, allows .block → may budget value → gives value
  enters : ∀ {machine : Machine} {budget node : Nat} {found : Node}, holds machine →
    may (budget + 1) (.expr node) → machine.store.node? node = some found →
    ∃ operation, found.function.action = .builtin operation ∧ allows operation ∧
      inside budget node operation
  may_operand : ∀ {machine : Machine} {budget node : Nat} {operation : Builtin} (position : Nat),
    holds machine → inside budget node operation → may budget (machine.store.arg node position)
  becomes_operand : ∀ {machine : Machine} {budget node : Nat} {operation : Builtin}
    {position : Nat}, holds machine → inside budget node operation →
    operation.Converts position → becomes budget (machine.store.arg node position)
  enter : ∀ {machine : Machine} (function : Function), holds machine →
    holds (machine.enter function)
  leave : ∀ {machine : Machine}, holds machine → holds machine.leave
  store : ∀ {machine : Machine} {store : Store}, holds machine → machine.store.Clears store →
    holds { machine with store }
  outside : ∀ {machine after : Machine}, acts → holds machine → after.store = machine.store →
    after.environment = machine.environment → holds after
  fetch : ∀ {machine : Machine} (name : Bytes), acts → holds machine →
    holds { machine with environment := (machine.environment.fetch name).2 }
  assign : ∀ {machine : Machine} {value : Value} (cell : Nat), acts → holds machine →
    gives value → holds { machine with environment := machine.environment.assign cell value }

namespace Contract

variable (contract : Contract)

/-- Wherever an action starts under the contract, its result is one that the contract allows. -/
abbrev Keeps {α : Type} (good : α → Prop) (action : Run α) : Prop :=
  Run.Keeps contract.holds contract.expects good action

variable {contract}

theorem keeps_onStore {α : Type} {action : StoreM α} (hsteps : Along Store.Steps action)
    (htrims : Store.Trimming action) :
    contract.Keeps (fun value => ∃ store after, action store = .ok value after)
      (Run.onStore action) :=
  .onStore (fun _ => contract.expects_cut trivial) fun machine hholds =>
    (Store.leftIn_clears hsteps htrims machine.store).weaken fun _ => contract.store hholds

theorem keeps_release (value : Value) : contract.Keeps (fun _ => True) (Run.release value) :=
  (keeps_onStore (Store.along_release value) (Store.trimming_release value)).weaken
    fun _ _ => trivial

/-- What keeps a contract is a logic of what has so much room. -/
def logic (contract : Contract) (budget fuel : Nat) (apply : Nat → Run Value)
    (happly : ∀ node, contract.may budget (.expr node) →
      contract.Keeps contract.gives (apply node)) : Logic budget fuel where
  Keeps good plan := contract.Keeps good (plan apply)
  holds := contract.holds
  allows := contract.allows
  acts := contract.acts
  lists _ := True
  expects := contract.expects
  may := contract.may budget
  becomes := contract.becomes
  gives := contract.gives
  pure := .pure
  bind := .bind
  look := .get
  throw := .throw
  deferring := .deferring (keeps_release _)
  concluding := .concluding (keeps_release _)
  onError := .onError (keeps_release _)
  onStore := keeps_onStore
  addNode heval := absurd rfl (contract.allows_ne heval).1
  fetch hacts _ _ hholds := ⟨trivial, contract.fetch _ hacts hholds⟩
  update cell hacts hvalue _ hholds := ⟨trivial, contract.assign cell hacts hholds hvalue⟩
  askWorld _ hacts _ _ hholds := ⟨trivial, contract.outside hacts hholds rfl rfl⟩
  readLine hallows _ hholds :=
    ⟨trivial, contract.outside (contract.acts_of hallows nofun) hholds rfl rfl⟩
  drawRandom hacts _ hholds := ⟨trivial, contract.outside hacts hholds rfl rfl⟩
  apply := happly _
  acts_of := contract.acts_of
  lists_of _ _ := trivial
  expects_ordinary _ := contract.expects_error
  expects_cut := contract.expects_cut
  expects_quit _ _ := contract.expects_error nofun
  expects_stuck := contract.expects_stuck
  expects_unread heval := absurd rfl (contract.allows_ne heval).1
  may_variable heval := absurd rfl (contract.allows_ne heval).1
  may_literal := contract.may_literal
  becomes_literal := contract.becomes_literal
  becomes_expr := contract.becomes_expr
  becomes_read heval := absurd rfl (contract.allows_ne heval).1
  gives_literal := contract.gives_literal
  gives_may := contract.gives_may
  gives_becomes := contract.gives_becomes
  gives_cell := contract.gives_cell
  gives_block := contract.gives_block

/-- Applications keep the contract, however many of them may nest. -/
theorem keeps_applyWithin (contract : Contract) (fuel budget : Nat) {node : Nat}
    (hmay : contract.may budget (.expr node)) :
    contract.Keeps contract.gives (Evaluator.applyWithin fuel budget node) := by
  induction budget generalizing node with
  | zero => exact fun machine hholds => ⟨contract.expects_nested machine.maxDepth hmay, hholds⟩
  | succ budget ih =>
      intro machine hholds
      cases hfound : machine.store.node? node with
      | none =>
          rw [Evaluator.applyWithin_of_none hfound]
          exact ⟨contract.gives_literal rfl, hholds⟩
      | some found =>
          obtain ⟨operation, haction, hallows, hinside⟩ := contract.enters hholds hmay hfound
          let logic := contract.logic budget fuel (Evaluator.applyWithin fuel budget) fun _ => ih
          have hnode : logic.Inside node operation.Converts :=
            { may := fun position hholds => contract.may_operand position hholds hinside
              becomes := fun hholds => contract.becomes_operand hholds hinside }
          have hleave (after : Machine) (hafter : contract.holds after) :
              contract.holds after.leave := contract.leave hafter
          rw [Evaluator.applyWithin_of_some hfound, haction]
          refine .leaving hleave ?_
          exact logic.perform hallows hnode _ (contract.enter found.function hholds)

/-- Running a value that may be run keeps the contract. -/
theorem keeps_run (contract : Contract) (fuel : Nat) {machine : Machine} {value : Value}
    (hmay : contract.may (machine.maxDepth - machine.depth).toNat value) :
    contract.Keeps contract.gives ((Evaluator.within fuel machine).run value) :=
  (contract.logic _ fuel _ fun _ => contract.keeps_applyWithin fuel _).run hmay

end Contract

end KnightLang
