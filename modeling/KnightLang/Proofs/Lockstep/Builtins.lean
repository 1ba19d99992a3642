import KnightLang.Proofs.Lockstep.Conversion

/-!
Every operation of the language keeps two machines in step, and so does every evaluation. An
operation is performed while its application is guarded, so its arguments stay what they are even
if the variable that held the application is assigned meanwhile.
-/

namespace KnightLang

open Machine

namespace Run.Lockstep

variable {α : Type} {first second : Evaluator} {start counting lasting : Machine}
  {held : Multiset Value} {gives : α → Multiset Value} {node : Nat}

theorem operand {more rest : Multiset Value} {next next' : Value → Run α}
    (instep : start.InStep more counting lasting) (hnode : start.Guards held (.expr node))
    (hsub : held ⊆ more) (position : Nat)
    (hnext : ∀ value, counting.Guards more value →
      Lockstep start rest gives (next value counting) (next' value lasting)) :
    Lockstep start rest gives ((Evaluator.operand node position >>= next) counting)
      ((Evaluator.operand node position >>= next') lasting) := by
  obtain ⟨harg, hguards⟩ := instep.arg_eq (instep.guards hnode hsub) position
  change Lockstep start rest gives (next (counting.store.arg node position) counting)
    (next' (lasting.store.arg node position) lasting)
  rw [harg]
  exact hnext _ hguards

theorem literal {value : Value} (instep : start.InStep held counting lasting)
    (hplain : value.isPlain = true) (hliteral : value.isLiteral = true) :
    start.InStep ({value} + held) counting lasting := by
  refine instep.plain hplain ?_
  rintro cell rfl
  simp [Value.isLiteral] at hliteral

theorem mapLiteral {action action' : Run α} {wrap : α → Value}
    (haction : Lockstep start held (fun _ => 0) (action counting) (action' lasting))
    (hplain : ∀ result, (wrap result).isPlain = true)
    (hliteral : ∀ result, (wrap result).isLiteral = true) :
    Lockstep start held (fun result => {result})
      ((action >>= fun result => pure (wrap result)) counting)
      ((action' >>= fun result => pure (wrap result)) lasting) := by
  refine haction.bind fun result counting lasting instep => ?_
  rw [zero_add] at instep
  exact .ok (literal instep (hplain result) (hliteral result))

theorem checked_eq (instep : start.InStep held counting lasting) :
    lasting.checked = counting.checked := by rw [instep.same]

theorem computed (instep : start.InStep held counting lasting)
    (operation : Bool → Except Reason Int64) :
    Lockstep start held (fun result => {result})
      ((do return .number (← Run.ofExcept (operation (← get).checked)) : Run Value) counting)
      ((do return .number (← Run.ofExcept (operation (← get).checked)) : Run Value) lasting) := by
  refine observe ?_
  rw [checked_eq instep]
  exact mapLiteral (ofExcept instep fun _ => rfl) (fun _ => rfl) (fun _ => rfl)

theorem prompt (instep : start.InStep held counting lasting) :
    Lockstep start held (fun result => {result}) (Evaluator.prompt counting)
      (Evaluator.prompt lasting) := by
  refine (flush instep).bind fun _ counting lasting instep => ?_
  rw [zero_add] at instep
  refine askWorld World.readLine instep fun line counting lasting instep => ?_
  cases line with
  | done => exact .ok (literal instep rfl rfl)
  | failed text => exact raiseBecause instep _ _
  | line bytes => exact (intern instep _).map fun _ => rfl

theorem random (instep : start.InStep held counting lasting) :
    Lockstep start held (fun result => {result}) (Evaluator.random counting)
      (Evaluator.random lasting) := by
  have hrandom : lasting.random = counting.random := by rw [instep.same]
  have hdrawn (next : UInt64) :
      start.InStep held { counting with random := next } { lasting with random := next } :=
    instep.update rfl rfl rfl (by rw [instep.same])
  unfold Evaluator.random Run.drawRandom
  refine step rfl ?_ (.ok (literal (hdrawn _) rfl rfl))
  change EStateM.Result.ok _ { lasting with random := _ } = _
  rw [hrandom]

section Operations

variable (twins : first.Twins second) (instep : start.InStep held counting lasting)
  (hnode : start.Guards held (.expr node))

include twins instep in
/-- A program is held while it is evaluated. -/
theorem evaluate (source : Source) (label : Bytes) :
    Lockstep start held (fun result => {result})
      (@Evaluator.evaluate .counting first source label counting)
      (@Evaluator.evaluate .lasting second source label lasting) := by
  refine (parseFrom instep source label).bind fun result counting lasting instep => ?_
  obtain ⟨result, rest⟩ := result
  cases result with
  | ok value => exact deferring (run twins instep (guards_cons_self _ _ _))
  | error error => exact .error (by simpa [parsed] using instep)

include instep hnode in
theorem block :
    Lockstep start held (fun result => {result}) (@Evaluator.block .counting node counting)
      (@Evaluator.block .lasting node lasting) :=
  operand instep hnode (Multiset.Subset.refl held) 0 fun _ hvalue => retain instep hvalue

include twins in
/-- Two operands as numbers, the first of them already evaluated and held. -/
theorem combined {left : Value} {counting lasting : Machine}
    (instep : start.InStep (left ::ₘ held) counting lasting)
    (hnode : start.Guards held (.expr node))
    (operation : Bool → Int64 → Int64 → Except Reason Int64) :
    Lockstep start (left ::ₘ held) (fun result => {result})
      ((do
        let number ← @Evaluator.toNumber .counting first left
        let other ← @Evaluator.toNumber .counting first (← Evaluator.operand node 1)
        return .number (← Run.ofExcept (operation (← get).checked number other)) : Run Value)
          counting)
      ((do
        let number ← @Evaluator.toNumber .lasting second left
        let other ← @Evaluator.toNumber .lasting second (← Evaluator.operand node 1)
        return .number (← Run.ofExcept (operation (← get).checked number other)) : Run Value)
          lasting) := by
  refine (toNumber twins instep (guards_cons_self _ _ _)).bind
    fun number counting lasting instep => ?_
  rw [zero_add] at instep
  refine operand instep hnode (Multiset.subset_cons _ _) 1 fun value hvalue => ?_
  refine (toNumber twins instep hvalue).bind fun other counting lasting instep => ?_
  rw [zero_add] at instep
  exact computed instep fun checked => operation checked number other

section

include twins instep hnode

theorem eval :
    Lockstep start held (fun result => {result})
      (@Evaluator.eval .counting first node counting)
      (@Evaluator.eval .lasting second node lasting) := by
  refine operand instep hnode (Multiset.Subset.refl held) 0 fun value hvalue => ?_
  refine withText twins instep hvalue fun text counting lasting instep => ?_
  refine observe ?_
  rw [instep.bytes_eq (guards_cons_self _ _ _)]
  exact evaluate twins instep _ _

theorem call :
    Lockstep start held (fun result => {result}) (@Evaluator.call .counting first node counting)
      (@Evaluator.call .lasting second node lasting) := by
  refine operand instep hnode (Multiset.Subset.refl held) 0 fun value hvalue => ?_
  refine (run twins instep hvalue).bind fun result counting lasting instep => ?_
  by_cases hliteral : result.isLiteral = true
  · simp only [hliteral, ↓reduceIte]
    exact .ok instep
  · simp only [hliteral]
    exact deferring (run twins instep (guards_cons_self _ _ _))

theorem shell :
    Lockstep start held (fun result => {result}) (@Evaluator.shell .counting first node counting)
      (@Evaluator.shell .lasting second node lasting) := by
  refine operand instep hnode (Multiset.Subset.refl held) 0 fun value hvalue => ?_
  refine withText twins instep hvalue fun text counting lasting instep => ?_
  refine observe ?_
  rw [instep.bytes_eq (guards_cons_self _ _ _)]
  refine askWorld (fun world => world.runCommand (counting.store.bytes text)) instep
    fun answer counting lasting instep => ?_
  cases answer with
  | error text => exact raiseBecause instep _ _
  | ok output => exact (intern instep output).map fun _ => rfl

theorem quit :
    Lockstep start held (fun result => {result}) (@Evaluator.quit .counting first node counting)
      (@Evaluator.quit .lasting second node lasting) := by
  refine operand instep hnode (Multiset.Subset.refl held) 0 fun value hvalue => ?_
  refine (toNumber twins instep hvalue).bind fun status counting lasting instep => ?_
  rw [zero_add] at instep
  refine askWorld (fun world => (PUnit.unit, world.log
    { level := .info, message := "quit", fields := [("status", Bytes.ofInt64 status)] })) instep
    fun _ counting lasting instep => ?_
  exact raise instep _

theorem not :
    Lockstep start held (fun result => {result}) (@Evaluator.not .counting first node counting)
      (@Evaluator.not .lasting second node lasting) :=
  operand instep hnode (Multiset.Subset.refl held) 0 fun _ hvalue =>
    mapLiteral (toBoolean twins instep hvalue) (fun _ => rfl) (fun _ => rfl)

theorem length :
    Lockstep start held (fun result => {result}) (@Evaluator.length .counting first node counting)
      (@Evaluator.length .lasting second node lasting) := by
  refine operand instep hnode (Multiset.Subset.refl held) 0 fun value hvalue => ?_
  refine (toText twins instep hvalue).bind fun text counting lasting instep => ?_
  rw [Multiset.singleton_add] at instep
  refine observe ?_
  rw [instep.bytes_eq (guards_cons_self _ _ _)]
  obtain ⟨after, hcounting, hlasting, hreleased⟩ := instep.release
  exact step hcounting hlasting (.ok (literal hreleased rfl rfl))

theorem dump :
    Lockstep start held (fun result => {result}) (@Evaluator.dump .counting first node counting)
      (@Evaluator.dump .lasting second node lasting) := by
  refine operand instep hnode (Multiset.Subset.refl held) 0 fun value hvalue => ?_
  refine (run twins instep hvalue).bind fun result counting lasting instep => ?_
  rw [Multiset.singleton_add] at instep
  have hdump := instep.dump_eq (guards_cons_self _ _ _)
  refine step rfl (congrArg (EStateM.Result.ok · lasting) hdump) ?_
  refine (onError (write instep _)).bind fun _ counting lasting instep => ?_
  exact .ok instep

theorem output :
    Lockstep start held (fun result => {result}) (@Evaluator.output .counting first node counting)
      (@Evaluator.output .lasting second node lasting) := by
  refine operand instep hnode (Multiset.Subset.refl held) 0 fun value hvalue => ?_
  refine withText twins instep hvalue fun text counting lasting instep => ?_
  refine observe ?_
  rw [instep.bytes_eq (guards_cons_self _ _ _)]
  exact mapLiteral (write instep _) (fun _ => rfl) (fun _ => rfl)

theorem numbers (position : Nat) :
    Lockstep start held (fun _ => 0) (@Evaluator.numbers .counting first node position counting)
      (@Evaluator.numbers .lasting second node position lasting) := by
  refine operand instep hnode (Multiset.Subset.refl held) position fun value hvalue => ?_
  refine (toNumber twins instep hvalue).bind fun left counting lasting instep => ?_
  rw [zero_add] at instep
  refine operand instep hnode (Multiset.Subset.refl held) (position + 1) fun value hvalue => ?_
  exact (toNumber twins instep hvalue).map fun _ => rfl

theorem add :
    Lockstep start held (fun result => {result}) (@Evaluator.add .counting first node counting)
      (@Evaluator.add .lasting second node lasting) := by
  refine operand instep hnode (Multiset.Subset.refl held) 0 fun value hvalue => ?_
  refine withResult twins instep hvalue fun left counting lasting instep => ?_
  cases left with
  | string text =>
      refine operand instep hnode (Multiset.subset_cons _ _) 1 fun value hvalue => ?_
      refine withText twins instep hvalue fun other counting lasting instep => ?_
      have htext : counting.Guards (.string other ::ₘ .string text ::ₘ held) (.string text) :=
        (guards_cons_self _ _ _).mono (Multiset.subset_cons _ _)
      exact (concat instep htext (guards_cons_self _ _ _)).map fun _ => rfl
  | null | boolean flag | number word | «variable» cell | expr index =>
      exact combined twins instep hnode Arithmetic.add

theorem multiply :
    Lockstep start held (fun result => {result})
      (@Evaluator.multiply .counting first node counting)
      (@Evaluator.multiply .lasting second node lasting) := by
  refine operand instep hnode (Multiset.Subset.refl held) 0 fun value hvalue => ?_
  refine withResult twins instep hvalue fun left counting lasting instep => ?_
  cases left with
  | string text =>
      refine operand instep hnode (Multiset.subset_cons _ _) 1 fun value hvalue => ?_
      refine (toNumber twins instep hvalue).bind fun count counting lasting instep => ?_
      rw [zero_add] at instep
      exact (replicate instep (guards_cons_self _ _ _) count).map fun _ => rfl
  | null | boolean flag | number word | «variable» cell | expr index =>
      exact combined twins instep hnode Arithmetic.multiply

theorem arithmetic (operation : Bool → Int64 → Int64 → Except Reason Int64) :
    Lockstep start held (fun result => {result})
      (@Evaluator.arithmetic .counting first node operation counting)
      (@Evaluator.arithmetic .lasting second node operation lasting) := by
  refine (numbers twins instep hnode 0).bind fun pair counting lasting instep => ?_
  rw [zero_add] at instep
  exact computed instep fun checked => operation checked pair.1 pair.2

theorem equal :
    Lockstep start held (fun result => {result}) (@Evaluator.equal .counting first node counting)
      (@Evaluator.equal .lasting second node lasting) := by
  refine operand instep hnode (Multiset.Subset.refl held) 0 fun value hvalue => ?_
  refine withResult twins instep hvalue fun left counting lasting instep => ?_
  refine operand instep hnode (Multiset.subset_cons _ _) 1 fun value hvalue => ?_
  refine withResult twins instep hvalue fun right counting lasting instep => ?_
  refine observe ?_
  have hleft : counting.Guards (right ::ₘ left ::ₘ held) left :=
    (guards_cons_self _ _ _).mono (Multiset.subset_cons _ _)
  rw [instep.equal_eq hleft (guards_cons_self _ _ _)]
  exact .ok (literal instep rfl rfl)

theorem ordered (expected : Ordering) :
    Lockstep start held (fun result => {result})
      (@Evaluator.ordered .counting first node expected counting)
      (@Evaluator.ordered .lasting second node expected lasting) := by
  refine operand instep hnode (Multiset.Subset.refl held) 0 fun left hleft => ?_
  refine operand instep hnode (Multiset.Subset.refl held) 1 fun right hright => ?_
  refine (rebase instep (compare twins instep.restart hleft hright)).bind ?_
  intro order counting lasting instep
  rw [zero_add] at instep
  exact .ok (literal instep rfl rfl)

theorem shortCircuit (decisive : Bool) :
    Lockstep start held (fun result => {result})
      (@Evaluator.shortCircuit .counting first node decisive counting)
      (@Evaluator.shortCircuit .lasting second node decisive lasting) := by
  refine operand instep hnode (Multiset.Subset.refl held) 0 fun value hvalue => ?_
  refine (run twins instep hvalue).bind fun left counting lasting instep => ?_
  rw [Multiset.singleton_add] at instep
  refine (onError (toBoolean twins instep (guards_cons_self _ _ _))).bind ?_
  intro flag counting lasting instep
  by_cases hdecisive : (flag == decisive) = true
  · simp only [hdecisive, ↓reduceIte]
    exact .ok instep
  · simp only [hdecisive]
    rw [Multiset.cons_add, zero_add] at instep
    obtain ⟨after, hcounting, hlasting, hreleased⟩ := instep.release
    refine step hcounting hlasting ?_
    refine operand hreleased hnode (Multiset.Subset.refl held) 1 fun value hvalue => ?_
    exact run twins hreleased hvalue

theorem seq :
    Lockstep start held (fun result => {result}) (@Evaluator.seq .counting first node counting)
      (@Evaluator.seq .lasting second node lasting) := by
  refine operand instep hnode (Multiset.Subset.refl held) 0 fun value hvalue => ?_
  refine (run twins instep hvalue).bind fun ignored counting lasting instep => ?_
  obtain ⟨after, hcounting, hlasting, hreleased⟩ := instep.release
  refine step hcounting hlasting ?_
  refine operand hreleased hnode (Multiset.Subset.refl held) 1 fun value hvalue => ?_
  exact run twins hreleased hvalue

theorem conditional :
    Lockstep start held (fun result => {result})
      (@Evaluator.conditional .counting first node counting)
      (@Evaluator.conditional .lasting second node lasting) := by
  refine operand instep hnode (Multiset.Subset.refl held) 0 fun value hvalue => ?_
  refine (toBoolean twins instep hvalue).bind fun flag counting lasting instep => ?_
  rw [zero_add] at instep
  cases flag with
  | true =>
      exact operand instep hnode (Multiset.Subset.refl held) 1 fun _ hvalue =>
        run twins instep hvalue
  | false =>
      exact operand instep hnode (Multiset.Subset.refl held) 2 fun _ hvalue =>
        run twins instep hvalue

theorem substring_application :
    Lockstep start held (fun result => {result})
      (@Evaluator.substring .counting first node counting)
      (@Evaluator.substring .lasting second node lasting) := by
  refine operand instep hnode (Multiset.Subset.refl held) 0 fun value hvalue => ?_
  refine withText twins instep hvalue fun text counting lasting instep => ?_
  have hnode := hnode.mono (Multiset.subset_cons held (.string text))
  refine (numbers twins instep hnode 1).bind fun pair counting lasting instep => ?_
  rw [zero_add] at instep
  exact (substring instep (guards_cons_self _ _ _) pair.1 pair.2).map fun _ => rfl

theorem splice_application :
    Lockstep start held (fun result => {result})
      (@Evaluator.splice .counting first node counting)
      (@Evaluator.splice .lasting second node lasting) := by
  refine operand instep hnode (Multiset.Subset.refl held) 0 fun value hvalue => ?_
  refine withText twins instep hvalue fun text counting lasting instep => ?_
  have hnode := hnode.mono (Multiset.subset_cons held (.string text))
  refine (numbers twins instep hnode 1).bind fun pair counting lasting instep => ?_
  rw [zero_add] at instep
  refine operand instep hnode (Multiset.Subset.refl _) 3 fun value hvalue => ?_
  refine withText twins instep hvalue fun other counting lasting instep => ?_
  have htext : counting.Guards (.string other ::ₘ .string text ::ₘ held) (.string text) :=
    (guards_cons_self _ _ _).mono (Multiset.subset_cons _ _)
  exact (splice instep htext pair.1 pair.2 (guards_cons_self _ _ _)).map fun _ => rfl

theorem negate :
    Lockstep start held (fun result => {result}) (@Evaluator.negate .counting first node counting)
      (@Evaluator.negate .lasting second node lasting) := by
  refine operand instep hnode (Multiset.Subset.refl held) 0 fun value hvalue => ?_
  refine (toNumber twins instep hvalue).bind fun number counting lasting instep => ?_
  rw [zero_add] at instep
  exact computed instep fun checked => Arithmetic.negate checked number

theorem value :
    Lockstep start held (fun result => {result}) (@Evaluator.value .counting first node counting)
      (@Evaluator.value .lasting second node lasting) := by
  refine operand instep hnode (Multiset.Subset.refl held) 0 fun value hvalue => ?_
  refine withText twins instep hvalue fun text counting lasting instep => ?_
  refine observe ?_
  rw [instep.bytes_eq (guards_cons_self _ _ _)]
  by_cases hname : (counting.store.bytes text).isIdentifier = true
  · simp only [hname, ↓reduceIte]
    obtain ⟨cell, after, after', hcounting, hlasting, -, hfetched⟩ :=
      instep.fetch (counting.store.bytes text)
    exact step hcounting hlasting (read hfetched cell)
  · simp only [hname]
    exact raise instep _

omit hnode in
/-- The target of an assignment is held as a variable until it is assigned. -/
theorem target {value : Value} (hvalue : counting.Guards held value) :
    Lockstep start held (fun cell => {.variable cell})
      (@Evaluator.target .counting first value counting)
      (@Evaluator.target .lasting second value lasting) := by
  have hnamed : Lockstep start held (fun cell => {.variable cell})
      ((do
        let text ← @Evaluator.toText .counting first value
        let name := (← get).store.bytes text
        if name.isIdentifier then
          let cell ← Run.fetch name
          @Run.release .counting (.string text)
          return cell
        else
          @Run.release .counting (.string text)
          Run.raise (.notAssignable name) : Run Nat) counting)
      ((do
        let text ← @Evaluator.toText .lasting second value
        let name := (← get).store.bytes text
        if name.isIdentifier then
          let cell ← Run.fetch name
          @Run.release .lasting (.string text)
          return cell
        else
          @Run.release .lasting (.string text)
          Run.raise (.notAssignable name) : Run Nat) lasting) := by
    refine (toText twins instep hvalue).bind fun text counting lasting instep => ?_
    rw [Multiset.singleton_add] at instep
    refine observe ?_
    rw [instep.bytes_eq (guards_cons_self _ _ _)]
    by_cases hname : (counting.store.bytes text).isIdentifier = true
    · simp only [hname, ↓reduceIte]
      obtain ⟨cell, middle, middle', hfetch, hfetch', hcell, hfetched⟩ :=
        instep.fetch (counting.store.bytes text)
      have hheld := hfetched.hold_cell hcell
      rw [Multiset.cons_swap] at hheld
      obtain ⟨after, hcounting, hlasting, hreleased⟩ := hheld.release
      exact step hfetch hfetch' (step hcounting hlasting (.ok hreleased))
    · simp only [hname]
      obtain ⟨after, hcounting, hlasting, hreleased⟩ := instep.release
      exact step hcounting hlasting (raise hreleased _)
  cases value with
  | «variable» cell => exact .ok (instep.hold_cell (instep.cell_lt hvalue))
  | null | boolean flag | number word | string text | expr index => exact hnamed

theorem assign :
    Lockstep start held (fun result => {result}) (@Evaluator.assign .counting first node counting)
      (@Evaluator.assign .lasting second node lasting) := by
  refine operand instep hnode (Multiset.Subset.refl held) 0 fun value hvalue => ?_
  refine (target twins instep hvalue).bind fun cell counting lasting instep => ?_
  rw [Multiset.singleton_add] at instep
  refine unhold_plain ?_ (show (Value.variable cell).isPlain = true from rfl)
  refine operand instep hnode (Multiset.subset_cons _ _) 1 fun value hvalue => ?_
  refine (run twins instep hvalue).bind fun result counting lasting instep => ?_
  rw [Multiset.singleton_add] at instep
  obtain ⟨middle, hretain, hretain', hretained⟩ :=
    instep.retain (guards_cons_self _ _ _) (InStep.held_subset _ counting.environment)
  have hcell : cell < middle.environment.cells.size := by
    refine hretained.cell_lt (.held ?_)
    simp only [Multiset.mem_cons, true_or, or_true]
  obtain ⟨after, after', hassign, hassign', hassigned⟩ := hretained.assign hcell
  exact step hretain hretain' (step hassign hassign' (.ok hassigned))

omit instep in
theorem loop (fuel : Nat) {counting lasting : Machine}
    (instep : start.InStep held counting lasting) :
    Lockstep start held (fun result => {result})
      (@Evaluator.loop .counting first node fuel counting)
      (@Evaluator.loop .lasting second node fuel lasting) := by
  induction fuel generalizing counting lasting with
  | zero =>
      rw [← zero_add held] at instep
      exact .exhausted instep
  | succ fuel ih =>
      unfold Evaluator.loop
      refine operand instep hnode (Multiset.Subset.refl held) 0 fun value hvalue => ?_
      refine (toBoolean twins instep hvalue).bind fun flag counting lasting instep => ?_
      rw [zero_add] at instep
      cases flag with
      | false => exact .ok (literal instep rfl rfl)
      | true =>
          refine operand instep hnode (Multiset.Subset.refl held) 1 fun value hvalue => ?_
          refine (run twins instep hvalue).bind fun ignored counting lasting instep => ?_
          obtain ⟨after, hcounting, hlasting, hreleased⟩ := instep.release
          exact step hcounting hlasting (ih hreleased)

omit instep in
theorem sum (arity count : Nat) (total : Int64) {counting lasting : Machine}
    (instep : start.InStep held counting lasting) :
    Lockstep start held (fun _ => 0)
      (@Evaluator.sum .counting first node arity count total counting)
      (@Evaluator.sum .lasting second node arity count total lasting) := by
  induction count generalizing total counting lasting with
  | zero => exact .ok (by rwa [zero_add])
  | succ count ih =>
      unfold Evaluator.sum
      refine operand instep hnode (Multiset.Subset.refl held) _ fun value hvalue => ?_
      refine (toNumber twins instep hvalue).bind fun number counting lasting instep => ?_
      rw [zero_add] at instep
      exact ih _ instep

theorem performHost (action : HostAction) :
    Lockstep start held (fun result => {result})
      (@Evaluator.performHost .counting first node action counting)
      (@Evaluator.performHost .lasting second node action lasting) := by
  obtain ⟨hargs, hguards⟩ := instep.args_eq (instep.guards hnode (Multiset.Subset.refl held))
  cases action with
  | dump =>
      refine observe ?_
      rw [hargs]
      have hdumps := List.map_congr_left fun value hmem => instep.dump_eq (hguards value hmem)
      refine step (Run.mapM_dump _ counting) (hdumps ▸ Run.mapM_dump _ lasting) ?_
      exact (intern instep _).map fun _ => rfl
  | sum =>
      refine observe ?_
      rw [hargs]
      exact mapLiteral (sum twins hnode _ _ 0 instep) (fun _ => rfl) (fun _ => rfl)
  | depth =>
      refine observe ?_
      rw [show lasting.depth = counting.depth by rw [instep.same]]
      exact .ok (literal instep rfl rfl)
  | fail => exact raise instep _
  | plain => exact .error instep
  | last =>
      refine observe ?_
      rw [hargs]
      cases hlast : (counting.store.args node).getLast? with
      | none => exact .ok (literal instep rfl rfl)
      | some argument =>
          exact run twins instep (hguards argument (List.mem_of_getLast? hlast))

theorem perform (operation : Builtin) :
    Lockstep start held (fun result => {result})
      (@Evaluator.perform .counting first node operation counting)
      (@Evaluator.perform .lasting second node operation lasting) := by
  cases operation with
  | prompt => exact prompt instep
  | random => exact random instep
  | eval => exact eval twins instep hnode
  | block => exact block instep hnode
  | call => exact call twins instep hnode
  | shell => exact shell twins instep hnode
  | quit => exact quit twins instep hnode
  | not => exact not twins instep hnode
  | length => exact length twins instep hnode
  | dump => exact dump twins instep hnode
  | output => exact output twins instep hnode
  | add => exact add twins instep hnode
  | multiply => exact multiply twins instep hnode
  | subtract | divide | power => exact arithmetic twins instep hnode _
  | remainder => exact arithmetic twins instep hnode fun _ => Arithmetic.remainder
  | equal => exact equal twins instep hnode
  | less | greater => exact ordered twins instep hnode _
  | and | or => exact shortCircuit twins instep hnode _
  | seq => exact seq twins instep hnode
  | assign => exact assign twins instep hnode
  | whileLoop =>
      unfold Evaluator.perform
      rw [twins.fuel]
      exact loop twins hnode _ instep
  | conditional => exact conditional twins instep hnode
  | get => exact substring_application twins instep hnode
  | set => exact splice_application twins instep hnode
  | negate => exact negate twins instep hnode
  | value => exact value twins instep hnode

theorem act (action : Action) :
    Lockstep start held (fun result => {result})
      (@Evaluator.act .counting first node action counting)
      (@Evaluator.act .lasting second node action lasting) := by
  cases action with
  | builtin operation => exact perform twins instep hnode operation
  | host action => exact performHost twins instep hnode action

end

end Operations

end Run.Lockstep

/-! ### Applications -/

namespace Machine.InStep

variable {start counting lasting : Machine} {held : Multiset Value}

theorem enter (instep : start.InStep held counting lasting) (function : Function) :
    start.InStep held (counting.enter function) (lasting.enter function) := by
  have htrace : lasting.trace = counting.trace := by rw [instep.same]
  have hdepth : lasting.depth = counting.depth := by rw [instep.same]
  cases hflag : counting.trace with
  | false =>
      rw [hflag] at htrace
      simp only [Machine.enter, htrace, hflag, hdepth, Bool.false_eq_true, ↓reduceIte]
      exact instep.update rfl rfl rfl (by rw [instep.same])
  | true =>
      rw [hflag] at htrace
      simp only [Machine.enter, htrace, hflag, hdepth, instep.world_eq, ↓reduceIte]
      exact instep.update rfl rfl rfl (by rw [instep.same])

theorem leave (instep : start.InStep held counting lasting) :
    start.InStep held counting.leave lasting.leave :=
  instep.update rfl rfl rfl (by rw [instep.same]; rfl)

end Machine.InStep

namespace Evaluator

/-- Applications stay in step however deep they nest: an application is performed with those inside
it, whose nesting has a smaller budget. -/
theorem lockstep_applyWithin (fuel budget : Nat) {start counting lasting : Machine}
    {held : Multiset Value} {node : Nat} (instep : start.InStep held counting lasting)
    (hnode : counting.Guards held (.expr node)) :
    Run.Lockstep start held (fun result => {result})
      (@applyWithin .counting fuel budget node counting)
      (@applyWithin .lasting fuel budget node lasting) := by
  induction budget generalizing start counting lasting held node with
  | zero => exact .tooDeep instep
  | succ budget ih =>
      obtain ⟨function, args, -, ⟨refs, hcounting⟩, ⟨refs', hlasting⟩⟩ := instep.node?_eq hnode
      have twins : Twins { budget, fuel, apply := @applyWithin .counting fuel budget }
          { budget, fuel, apply := @applyWithin .lasting fuel budget } :=
        { budget := rfl, fuel := rfl, apply := ih }
      have hentered := (instep.restart.enter function)
      have hact := (Run.Lockstep.act twins hentered hnode function.action).rebase instep
      simp only [applyWithin, hcounting, hlasting]
      generalize @act .counting _ node function.action (counting.enter function) = result at hact ⊢
      generalize @act .lasting _ node function.action (lasting.enter function) = result' at hact ⊢
      cases hact with
      | ok hend => exact .ok hend.leave
      | error hend => exact .error hend.leave
      | exhausted hend => exact .exhausted hend

theorem twins_within (fuel : Nat) {start counting lasting : Machine} {held : Multiset Value}
    (instep : start.InStep held counting lasting) :
    Twins (@within .counting fuel counting) (@within .lasting fuel lasting) := by
  have hbudget : lasting.maxDepth - lasting.depth = counting.maxDepth - counting.depth := by
    rw [instep.same]
  unfold within
  rw [hbudget]
  exact { budget := rfl, fuel := rfl, apply := lockstep_applyWithin fuel _ }

end Evaluator

end KnightLang
