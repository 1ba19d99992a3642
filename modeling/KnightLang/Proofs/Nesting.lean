import KnightLang.Proofs.Contract
import KnightLang.Proofs.Expression.Frame
import KnightLang.Proofs.Expression.Interruption
import KnightLang.Proofs.Expression.Written
import KnightLang.Proofs.Lockstep

/-!
What a parse accepts has room to run. Applications nest as deep while an expression is evaluated as
they are written, as long as none of them runs an expression that it comes by otherwise; the
conversion of a variable takes one step more, which is one too many at the limit.
-/

namespace KnightLang

/-- The operations that run nothing but their arguments. -/
def Builtin.IsDirect (operation : Builtin) : Prop :=
  operation ≠ .block ∧ operation ≠ .call ∧ operation ≠ .eval

instance : DecidablePred Builtin.IsDirect := fun _ => inferInstanceAs (Decidable (_ ∧ _ ∧ _))

/-! ### Expressions as they are written -/

/-- Some application that stands inside so many others, itself included, converts a variable to a
truth value, a number or a text. -/
inductive Tree.ConvertsAt : (level : Nat) → Tree → Prop where
  | self {function : Function} {args : List Tree} {operation : Builtin} {position : Nat}
      {name : Bytes} :
      function.action = .builtin operation → operation.Converts position →
      args[position]? = some (.variable name) → ConvertsAt 1 (.apply function args)
  | argument {level : Nat} {function : Function} {args : List Tree} {tree : Tree} :
      tree ∈ args → ConvertsAt level tree → ConvertsAt (level + 1) (.apply function args)

mutual

theorem Derives.nesting_le {table : FunctionTable} {budget : Nat} {word rest : Bytes} {tree : Tree}
    (hderives : Derives table budget word tree rest) : tree.nesting ≤ budget := by
  cases hderives with
  | atom _ hatom =>
      cases hatom with
      | number | «variable» | text => exact Nat.zero_le _
      | word hliteral =>
          unfold wordLiteral? at hliteral
          split_ifs at hliteral <;> cases hliteral <;> exact Nat.zero_le _
  | apply _ _ hargs _ => exact Nat.succ_le_succ hargs.nestingAll_le

theorem DerivesAll.nestingAll_le {table : FunctionTable} {budget : Nat} {word rest : Bytes}
    {trees : List Tree} (hderives : DerivesAll table budget word trees rest) :
    Tree.nestingAll trees ≤ budget := by
  cases hderives with
  | nil => exact Nat.zero_le _
  | cons hfirst hothers => exact Nat.max_le.mpr ⟨hfirst.nesting_le, hothers.nestingAll_le⟩

end

/-- A parse accepts no expression that nests deeper than the limit. -/
theorem Grammar.nesting_le_of_parse {grammar : Grammar} {bytes : Bytes} {tree : Tree}
    {scanner : Scanner} (hparse : grammar.parse bytes = .ok tree scanner) :
    tree.nesting ≤ grammar.limit.toNat := by
  let ending : Grammar := { grammar with failure := none }
  have hplain : Scan.expression ending grammar.limit.toNat { unread := bytes } =
      .ok tree scanner := by
    cases hfailure : grammar.failure with
    | none =>
        have hsame : ending = grammar := by simp only [ending, ← hfailure]
        rw [hsame]
        exact hparse
    | some text =>
        have hsame : ending.failing text = grammar := by
          simp only [ending, Grammar.failing, ← hfailure]
        have hinterrupts : Scan.Interrupts ending text _ _ :=
          Scan.interrupts_expression rfl grammar.limit.toNat
        refine hinterrupts.ok ?_
        rw [hsame]
        exact hparse
  obtain ⟨word, -, hderives⟩ := Scan.expression_sound rfl _ hplain
  exact hderives.nesting_le

theorem Environment.HoldsLiterals.fetchAll {environment : Environment}
    (hliterals : environment.HoldsLiterals) (names : List Bytes) :
    (environment.fetchAll names).HoldsLiterals := by
  induction names generalizing environment with
  | nil => exact hliterals
  | cons name names ih => exact ih (hliterals.fetch name)

/-! ### Expressions in a store -/

/-- An application has room for what it does where so many others may nest inside it. -/
structure Builtin.Affords (operation : Builtin) (fits : Value → Prop) (budget : Nat)
    (args : List Value) : Prop where
  direct : operation.IsDirect
  operands : ∀ position, fits (args.getD position .null)
  converts : ∀ position, operation.Converts position →
    (args.getD position .null).isLiteral = true ∨ 0 < budget

/-- A value has room where so many applications may nest. -/
def Store.Fits (store : Store) : (budget : Nat) → Value → Prop
  | 0, .expr _ => False
  | budget + 1, .expr index => ∀ node, store.node? index = some node →
      ∃ operation, node.function.action = .builtin operation ∧
        operation.Affords (fun value => store.Fits budget value) budget node.args
  | _, _ => True

namespace Store

variable {store : Store} {budget : Nat} {value : Value}

theorem fits_of_isLiteral (hliteral : value.isLiteral = true) : store.Fits budget value := by
  cases value with
  | «variable» cell | expr index => cases hliteral
  | null | boolean flag | number word | string text => cases budget <;> trivial

theorem fits_variable (cell : Nat) : store.Fits budget (.variable cell) := by
  cases budget <;> trivial

/-- An application needs room itself. -/
theorem Fits.budget_pos {index : Nat} (hfits : store.Fits budget (.expr index)) : 0 < budget := by
  cases budget with
  | zero => exact hfits.elim
  | succ budget => exact Nat.succ_pos budget

end Store

namespace Machine

variable {machine : Machine} {budget : Nat}

/-- The operand of an application that stands for a written operand is converted in time. -/
theorem Stands.converts_in_time {tree : Tree} {value : Value} (hstands : machine.Stands tree value)
    (hfits : machine.store.Fits budget value)
    (hvariable : ∀ name, tree = .variable name → 0 < budget) :
    value.isLiteral = true ∨ 0 < budget := by
  cases tree with
  | null | boolean flag | number word =>
      simp only [Stands] at hstands
      rw [hstands]
      exact Or.inl rfl
  | text contents =>
      simp only [Stands] at hstands
      rcases hstands with ⟨text, rfl, -⟩ | ⟨index, refs, rfl, -⟩
      · exact Or.inl rfl
      · exact Or.inl rfl
  | «variable» name => exact Or.inr (hvariable name rfl)
  | apply function args =>
      simp only [Stands] at hstands
      obtain ⟨index, values, refs, rfl, -, -⟩ := hstands
      exact Or.inr hfits.budget_pos

theorem StandsAll.getElem? {trees : List Tree} {values : List Value} {position : Nat}
    {value : Value}
    (hstands : machine.StandsAll trees values) (hvalue : values[position]? = some value) :
    ∃ tree, trees[position]? = some tree ∧ machine.Stands tree value := by
  induction trees generalizing values position with
  | nil =>
      simp only [StandsAll] at hstands
      simp [hstands] at hvalue
  | cons tree trees ih =>
      simp only [StandsAll] at hstands
      obtain ⟨first, others, rfl, hfirst, hothers⟩ := hstands
      cases position with
      | zero =>
          obtain rfl := Option.some.inj hvalue
          exact ⟨tree, rfl, hfirst⟩
      | succ position => exact ih hothers hvalue

mutual

/-- What stands for an expression has room where the expression may nest, unless a variable is
converted at the limit. -/
theorem Stands.fits (tree : Tree) {budget : Nat} {value : Value}
    (hstands : machine.Stands tree value) (hnesting : tree.nesting ≤ budget)
    (hdirect : ∀ function, tree.Applies function → function.IsAmong Builtin.IsDirect)
    (hconverts : ¬tree.ConvertsAt budget) : machine.store.Fits budget value := by
  match tree with
  | .null | .boolean _ | .number _ =>
      simp only [Stands] at hstands
      rw [hstands]
      exact Store.fits_of_isLiteral rfl
  | .text contents =>
      simp only [Stands] at hstands
      rcases hstands with ⟨text, rfl, -⟩ | ⟨index, refs, rfl, -⟩
      · exact Store.fits_of_isLiteral rfl
      · exact Store.fits_of_isLiteral rfl
  | .variable name =>
      simp only [Stands] at hstands
      obtain ⟨cell, rfl, -⟩ := hstands
      exact Store.fits_variable cell
  | .apply function args =>
      simp only [Stands] at hstands
      obtain ⟨index, values, refs, rfl, hnode, hargs⟩ := hstands
      obtain ⟨budget, rfl⟩ : ∃ inner, budget = inner + 1 :=
        ⟨budget - 1, by simp only [Tree.nesting] at hnesting; omega⟩
      have hinner : Tree.nestingAll args ≤ budget := Nat.le_of_succ_le_succ hnesting
      have hoperands := StandsAll.fits args hargs hinner
        (fun tree hmem function happlies => hdirect function (.argument hmem happlies))
        (fun tree hmem hinside => hconverts (.argument hmem hinside))
      obtain ⟨operation, haction, hoperation⟩ := hdirect function .self
      intro node hfound
      obtain rfl := Option.some.inj (hnode.symm.trans hfound)
      refine ⟨operation, haction, hoperation, hoperands, fun position hposition => ?_⟩
      rw [List.getD_eq_getElem?_getD]
      cases hvalue : values[position]? with
      | none => exact Or.inl rfl
      | some value =>
          obtain ⟨tree, htree, hvalueStands⟩ := hargs.getElem? hvalue
          have hfits := hoperands position
          rw [List.getD_eq_getElem?_getD, hvalue] at hfits
          refine hvalueStands.converts_in_time hfits ?_
          rintro name rfl
          by_contra hzero
          obtain rfl := Nat.eq_zero_of_not_pos hzero
          exact hconverts (.self haction hposition htree)

theorem StandsAll.fits (trees : List Tree) {budget : Nat} {values : List Value}
    (hstands : machine.StandsAll trees values) (hnesting : Tree.nestingAll trees ≤ budget)
    (hdirect : ∀ tree ∈ trees, ∀ function, tree.Applies function →
      function.IsAmong Builtin.IsDirect)
    (hconverts : ∀ tree ∈ trees, ¬tree.ConvertsAt budget) (position : Nat) :
    machine.store.Fits budget (values.getD position .null) := by
  match trees with
  | [] =>
      simp only [StandsAll] at hstands
      rw [hstands]
      exact Store.fits_of_isLiteral rfl
  | tree :: trees =>
      simp only [StandsAll] at hstands
      obtain ⟨value, others, rfl, hfirst, hothers⟩ := hstands
      obtain ⟨hnesting, hnestingAll⟩ := Nat.max_le.mp hnesting
      cases position with
      | zero =>
          exact Stands.fits tree hfirst hnesting (hdirect tree List.mem_cons_self)
            (hconverts tree List.mem_cons_self)
      | succ position =>
          exact StandsAll.fits trees hothers hnestingAll
            (fun tree hmem => hdirect tree (List.mem_cons_of_mem _ hmem))
            (fun tree hmem => hconverts tree (List.mem_cons_of_mem _ hmem)) position

end

/-! ### Evaluation -/

/-- What evaluation of direct operations keeps to, where variables hold literals: every value it
meets has the room it needs. -/
def nests (start : Machine) : Contract where
  allows := Builtin.IsDirect
  acts := True
  holds machine := start.store.Clears machine.store ∧ machine.environment.HoldsLiterals
  expects stop := ∀ error, stop = .error error → error.kind ≠ .depth
  may := start.store.Fits
  becomes steps value := value.isLiteral = true ∨ 0 < steps
  gives value := value.isLiteral = true
  inside budget node operation := ∃ found, start.store.node? node = some found ∧
    operation.Affords (fun value => start.store.Fits budget value) budget found.args
  allows_ne hdirect := ⟨hdirect.2.2, hdirect.2.1⟩
  acts_of _ _ := trivial
  expects_error hkind other heq := by
    cases heq
    exact hkind
  expects_cut hcut other heq := by
    cases heq
    exact hcut.elim
  expects_nested _ hfits := hfits.elim
  expects_stuck _ hbecomes hliteral := by
    rcases hbecomes with hliteral' | hpos
    · exact absurd (hliteral.symm.trans hliteral') Bool.false_ne_true
    · exact absurd hpos (lt_irrefl 0)
  may_literal hliteral := Store.fits_of_isLiteral hliteral
  becomes_literal hliteral := Or.inl hliteral
  becomes_expr hfits := Or.inr hfits.budget_pos
  gives_literal hliteral := hliteral
  gives_may hliteral := Store.fits_of_isLiteral hliteral
  gives_becomes hliteral := Or.inl hliteral
  gives_cell hholds hvalue := hholds.2 _ _ hvalue
  gives_block hdirect _ := absurd rfl hdirect.1
  enters {machine budget node found} hholds hfits hfound := by
    obtain ⟨old, hold, hfunction, -⟩ := hholds.1.nodes node found hfound
    obtain ⟨operation, haction, haffords⟩ := hfits old hold
    exact ⟨operation, by rw [hfunction, haction], haffords.direct, old, hold, haffords⟩
  may_operand {machine budget node operation} position hholds hinside := by
    obtain ⟨found, hfound, haffords⟩ := hinside
    rcases hholds.1.arg node position with hsame | hnull
    · rw [hsame, Store.arg, hfound]
      exact haffords.operands position
    · rw [hnull]
      exact Store.fits_of_isLiteral rfl
  becomes_operand {machine budget node operation position} hholds hinside hconverts := by
    obtain ⟨found, hfound, haffords⟩ := hinside
    rcases hholds.1.arg node position with hsame | hnull
    · rw [hsame, Store.arg, hfound]
      exact haffords.converts position hconverts
    · rw [hnull]
      exact Or.inl rfl
  enter {machine} function hholds := by
    obtain ⟨-, henvironment, hstore⟩ := machine.enter_contents function
    rw [henvironment, hstore]
    exact hholds
  leave hholds := hholds
  store hholds hclears := ⟨hholds.1.trans hclears, hholds.2⟩
  outside _ hholds hstore henvironment := by
    rw [hstore, henvironment]
    exact hholds
  fetch name _ hholds := ⟨hholds.1, hholds.2.fetch name⟩
  assign cell _ hholds hliteral := ⟨hholds.1, hholds.2.assign hliteral cell⟩

theorem parsed_stands {machine : Machine} {source : Source} {label : Bytes} {tree : Tree}
    {scanner : Scanner}
    (hparse : (machine.grammar label source.failure).parse source.unread = .ok tree scanner)
    (hliterals : machine.environment.HoldsLiterals) :
    ∃ value parsed, parsed.Stands tree value ∧ parsed.environment.HoldsLiterals ∧
      Run.parseFrom source label machine =
        .ok (.ok value, { source with unread := scanner.unread }) parsed := by
  obtain ⟨value, parsed, hload, hstands, hfrom⟩ := Run.parseFrom_of_ok hparse
  rw [load_eq tree machine (machine.cellsOf_cellFor tree.names)] at hload
  cases hload
  exact ⟨_, _, hstands, hliterals.fetchAll tree.names, hfrom⟩

/-- Evaluation of direct operations from the outermost level is never stopped for nesting too deep,
where variables hold literals: whatever a parse has accepted can nest as deep as it is written,
unless an application at the limit converts a variable. -/
theorem evaluate_fits {machine : Machine} {source : Source} {label : Bytes} {tree : Tree}
    {scanner : Scanner}
    (hparse : (machine.grammar label source.failure).parse source.unread = .ok tree scanner)
    (hdirect : ∀ function, tree.Applies function → function.IsAmong Builtin.IsDirect)
    (hliterals : machine.environment.HoldsLiterals) (hdepth : machine.depth = 0)
    (hconverts : ¬tree.ConvertsAt machine.maxDepth.toNat) (fuel : Nat) :
    match (Evaluator.within fuel machine).evaluate source label machine with
    | .error (.error error) _ => error.kind ≠ .depth
    | _ => True := by
  obtain ⟨value, parsed, hstands, hliterals, hfrom⟩ := parsed_stands hparse hliterals
  have hnesting : tree.nesting ≤ machine.maxDepth.toNat := Grammar.nesting_le_of_parse hparse
  have hbudget : (machine.maxDepth - machine.depth).toNat = machine.maxDepth.toNat := by
    rw [hdepth, Int.natCast_zero, sub_zero]
  have hfits : parsed.store.Fits (machine.maxDepth - machine.depth).toNat value := by
    rw [hbudget]
    exact hstands.fits tree hnesting hdirect hconverts
  have hkeeps : parsed.nests.Keeps parsed.nests.gives
      (Run.deferring (Run.release value) ((Evaluator.within fuel machine).run value)) :=
    .deferring (Contract.keeps_release value) (parsed.nests.keeps_run fuel hfits)
  have hmeets := hkeeps parsed ⟨.refl parsed.store, hliterals⟩
  have hevaluate : (Evaluator.within fuel machine).evaluate source label machine =
      Run.deferring (Run.release value) ((Evaluator.within fuel machine).run value) parsed :=
    Run.bind_ok hfrom
  rw [← hevaluate] at hmeets
  split
  · next error after hresult =>
      rw [hresult] at hmeets
      exact hmeets.1 error rfl
  · trivial

/-- A new machine with a small limit. -/
def shallow : Machine := { maxDepth := 2 }

/-- `- 1 x` -/
def differenceOfVariable : Tree :=
  .apply (Builtin.function 45 "-" 2 .subtract) [.number 1, .variable "x"]

theorem holdsLiterals_shallow : shallow.environment.HoldsLiterals := by
  intro cell held hheld
  simp [shallow, Environment.value?] at hheld

/-- The subtraction converts its variable one level above the limit, and fails only because the
variable is not assigned. -/
theorem evaluate_fits_difference :
    (∃ scanner, (shallow.grammar "main" none).parse "- 1 x" = .ok differenceOfVariable scanner) ∧
      (∀ function, differenceOfVariable.Applies function → function.IsAmong Builtin.IsDirect) ∧
      shallow.environment.HoldsLiterals ∧ ¬differenceOfVariable.ConvertsAt 2 ∧
      ∃ error after,
        (Evaluator.within 0 shallow).evaluate { unread := "- 1 x" } "main" shallow =
          .error (.error error) after ∧ error.kind ≠ .depth := by
  have hwritable : differenceOfVariable.Writable shallow.functions :=
    ⟨rfl, rfl, show 0 ≤ (1 : Int64).toInt by decide, rfl, trivial⟩
  have hwritten : differenceOfVariable.Written "- 1 x" :=
    differenceOfVariable.written_print hwritable
  obtain ⟨scanner, hparse, -⟩ :=
    hwritten.parse FunctionTable.Defined.standard hwritable (by decide) parted_nil "main"
  have hdirect : ∀ function, differenceOfVariable.Applies function →
      function.IsAmong Builtin.IsDirect := by
    intro function happlies
    cases happlies with
    | self => exact ⟨.subtract, rfl, by decide⟩
    | argument hmem happlies => rcases List.mem_pair.mp hmem with rfl | rfl <;> cases happlies
  have hconverts : ¬differenceOfVariable.ConvertsAt 2 := by
    intro hconverts
    cases hconverts with
    | argument hmem hinside => rcases List.mem_pair.mp hmem with rfl | rfl <;> cases hinside
  have hfits := @evaluate_fits shallow { unread := "- 1 x" } "main" _ _ hparse hdirect
    holdsLiterals_shallow rfl hconverts 0
  have hstops : (match (Evaluator.within 0 shallow).evaluate { unread := "- 1 x" } "main" shallow
    with
    | .error (.error _) _ => true
    | _ => false) = true := by decide +kernel
  refine ⟨⟨_, hparse⟩, hdirect, holdsLiterals_shallow, hconverts, ?_⟩
  split at hstops
  · next error after hresult =>
      rw [hresult] at hfits
      exact ⟨error, after, hresult, hfits⟩
  · cases hstops

/-- `; = x T ! x` -/
def negationOfVariable : Tree :=
  .apply (Builtin.function 59 ";" 2 .seq)
    [.apply (Builtin.function 61 "=" 2 .assign) [.variable "x", .boolean true],
      .apply (Builtin.function 33 "!" 1 .not) [.variable "x"]]

/-- The negation converts its variable at the limit, and is stopped although no more than two
applications stand inside each other. -/
theorem evaluate_stopped_at_limit :
    (∃ scanner, (shallow.grammar "main" none).parse "; = x T ! x" =
        .ok negationOfVariable scanner) ∧
      (∀ function, negationOfVariable.Applies function → function.IsAmong Builtin.IsDirect) ∧
      shallow.environment.HoldsLiterals ∧ shallow.depth = 0 ∧ 1 ≤ shallow.maxDepth ∧
      ∃ error after,
        (Evaluator.within 0 shallow).evaluate { unread := "; = x T ! x" } "main" shallow =
          .error (.error error) after ∧ error.kind = .depth := by
  have hwritable : negationOfVariable.Writable shallow.functions :=
    ⟨rfl, rfl, ⟨rfl, rfl, rfl, trivial, trivial⟩, ⟨rfl, rfl, rfl, trivial⟩, trivial⟩
  have hwritten : negationOfVariable.Written "; = x T ! x" :=
    negationOfVariable.written_print hwritable
  obtain ⟨scanner, hparse, -⟩ :=
    hwritten.parse FunctionTable.Defined.standard hwritable (by decide) parted_nil "main"
  have hdirect : ∀ function, negationOfVariable.Applies function →
      function.IsAmong Builtin.IsDirect := by
    intro function happlies
    cases happlies with
    | self => exact ⟨.seq, rfl, by decide⟩
    | argument hmem happlies =>
        rcases List.mem_pair.mp hmem with rfl | rfl
        · cases happlies with
          | self => exact ⟨.assign, rfl, by decide⟩
          | argument hmem happlies =>
              rcases List.mem_pair.mp hmem with rfl | rfl <;> cases happlies
        · cases happlies with
          | self => exact ⟨.not, rfl, by decide⟩
          | argument hmem happlies =>
              rcases List.mem_singleton.mp hmem with rfl
              cases happlies
  have hstops : (match (Evaluator.within 0 shallow).evaluate { unread := "; = x T ! x" } "main"
      shallow with
    | .error (.error error) _ => decide (error.kind = .depth)
    | _ => false) = true := by decide +kernel
  refine ⟨⟨_, hparse⟩, hdirect, holdsLiterals_shallow, rfl, by decide, ?_⟩
  split at hstops
  · next error after hresult => exact ⟨error, after, hresult, of_decide_eq_true hstops⟩
  · cases hstops

end Machine

end KnightLang
