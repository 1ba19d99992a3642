import KnightLang.Proofs.Expression.Building
import KnightLang.Proofs.Limits.Evaluation

/-!
Nothing is lost. Applications own values that were made before them, so that ownership has no
cycles, and whatever is live is owned, in the end, by a variable or by the host. When the host owns
nothing, the variables own everything there is, and giving them up frees all of it.
-/

namespace KnightLang

/-- An application owns the values in its argument slots. -/
def Store.Owns (store : Store) (owner value : Value) : Prop :=
  ∃ index, owner = .expr index ∧ value ∈ store.args index

/-- Nothing owns itself, be it through others. -/
def Store.Acyclic (store : Store) : Prop :=
  ∀ value, ¬Relation.TransGen store.Owns value value

/-- A value that is owned by a variable, be it through applications. -/
def Machine.Retained (machine : Machine) (value : Value) : Prop :=
  ∃ cell held, machine.environment.value? cell = some held ∧
    Relation.ReflTransGen machine.store.Owns held value

theorem exists_mem_of_mem_sum_map {α : Type} {weight : α → Multiset Value} {items : List α}
    {value : Value} (hmem : value ∈ (items.map weight).sum) :
    ∃ item ∈ items, value ∈ weight item := by
  induction items with
  | nil => simp at hmem
  | cons first rest ih =>
      rw [List.map_cons, List.sum_cons, Multiset.mem_add] at hmem
      rcases hmem with hfirst | hrest
      · exact ⟨first, List.mem_cons_self, hfirst⟩
      · obtain ⟨item, hitem, hvalue⟩ := ih hrest
        exact ⟨item, List.mem_cons_of_mem _ hitem, hvalue⟩

namespace Store

variable {store : Store} {cells : Nat} {outside : Multiset Value} {value : Value}

theorem args_of_live? {index : Nat} {function : Function} {args : List Value}
    (hlive : store.live? (.expr index) = some (.application function args)) :
    store.args index = args := by
  obtain ⟨refs, -, hnode⟩ := node?_of_live? hlive
  exact args_of_node? hnode

/-- Whatever is held by an application is held by a live one. -/
theorem exists_live_owner (hmem : value ∈ store.holds) :
    ∃ index, (store.live? (.expr index)).isSome ∧ store.Owns (.expr index) value := by
  obtain ⟨node, hnode, hvalue⟩ := exists_mem_of_mem_sum_map hmem
  obtain ⟨index, hindex⟩ := List.mem_iff_getElem?.mp hnode
  rw [Array.getElem?_toList] at hindex
  unfold Node.holds at hvalue
  by_cases hrefs : node.refs = 0
  · simp [hrefs] at hvalue
  · have hlive : store.live? (.expr index) = some (.application node.function node.args) :=
      live?_expr_eq_some_iff.mpr ⟨node, hindex, hrefs, rfl⟩
    refine ⟨index, by simp [hlive], index, rfl, ?_⟩
    rw [args_of_live? hlive]
    simpa [hrefs] using hvalue

theorem isPlain_of_live? (hlive : (store.live? value).isSome) : value.isPlain = false := by
  by_contra hplain
  simp [Bool.eq_true_of_not_eq_false hplain] at hlive

theorem Balanced.mem_of_live? (balanced : store.Balanced cells outside)
    (hlive : (store.live? value).isSome) : value ∈ store.holds + outside := by
  obtain ⟨refs, hrefs, hpos⟩ := live?_isSome_iff.mp hlive
  rw [balanced.counts value refs hrefs] at hpos
  exact Multiset.count_pos.mp hpos

/-- Every application owns older ones only. -/
def Layered (store : Store) : Prop :=
  ∀ index node child, store.node? index = some node → .expr child ∈ node.args → child < index

/-- How much older a value is than the newest application. -/
def age (store : Store) : Value → Nat
  | .expr index => store.nodes.size - index
  | _ => store.nodes.size + 1

theorem age_lt_of_owns (hlayered : store.Layered) {owner : Value}
    (howns : store.Owns owner value) : store.age owner < store.age value := by
  obtain ⟨index, rfl, hmem⟩ := howns
  cases hnode : store.node? index with
  | none => simp [args, hnode] at hmem
  | some node =>
      have hargs := args_of_node? hnode
      have hlt : index < store.nodes.size := (Array.getElem?_eq_some_iff.mp hnode).1
      cases value with
      | expr child =>
          have hchild : child < index := hlayered index node child hnode (hargs ▸ hmem)
          simp only [age]
          omega
      | null | boolean flag | number word | string text | «variable» cell =>
          simp only [age]
          omega

theorem Layered.acyclic (hlayered : store.Layered) : store.Acyclic := by
  have hage {owner value : Value} (hpath : Relation.TransGen store.Owns owner value) :
      store.age owner < store.age value := by
    induction hpath with
    | single howns => exact age_lt_of_owns hlayered howns
    | tail _ howns ih => exact ih.trans (age_lt_of_owns hlayered howns)
  exact fun value hpath => lt_irrefl _ (hage hpath)

/-- Whatever is live is owned by something outside the store, be it through applications. -/
theorem Balanced.exists_root (balanced : store.Balanced cells outside)
    (hlive : (store.live? value).isSome) :
    ∃ root ∈ outside, root.isPlain = false ∧ Relation.ReflTransGen store.Owns root value := by
  induction hage : store.age value using Nat.strongRecOn generalizing value with
  | _ age ih =>
      rcases Multiset.mem_add.mp (balanced.mem_of_live? hlive) with hheld | houtside
      · -- An owner inside the store is newer, and it is live, so that it has a root of its own.
        obtain ⟨index, howner, howns⟩ := exists_live_owner hheld
        obtain ⟨root, hroot, hplain, hpath⟩ :=
          ih _ (hage ▸ age_lt_of_owns balanced.older howns) howner rfl
        exact ⟨root, hroot, hplain, hpath.tail howns⟩
      · exact ⟨value, houtside, isPlain_of_live? hlive, .refl⟩

/-- Whatever a live value owns is live, if it has a payload at all. -/
theorem Balanced.live_of_path (balanced : store.Balanced cells outside) {root : Value}
    (hroot : root ∈ outside) (hpath : Relation.ReflTransGen store.Owns root value)
    (hplain : value.isPlain = false) : (store.live? value).isSome := by
  induction hpath with
  | refl =>
      obtain ⟨payload, hlive⟩ :=
        balanced.live_of_mem (Multiset.mem_add.mpr (Or.inr hroot)) hplain
      simp [hlive]
  | @tail owner value _ howns ih =>
      obtain ⟨index, rfl, hmem⟩ := howns
      obtain ⟨payload, hlive⟩ := Option.isSome_iff_exists.mp (ih rfl)
      obtain ⟨function, args, rfl⟩ := application_of_live? hlive
      rw [args_of_live? hlive] at hmem
      obtain ⟨payload, hvalue⟩ :=
        balanced.live_of_mem (Multiset.mem_add.mpr (Or.inl (mem_holds_of_live? hlive hmem))) hplain
      simp [hvalue]

/-- A value without an owned payload owns nothing but itself. -/
theorem eq_of_path_of_isPlain {root : Value} (hplain : root.isPlain = true)
    (hpath : Relation.ReflTransGen store.Owns root value) : value = root := by
  rcases hpath.cases_head with rfl | ⟨_, ⟨index, rfl, -⟩, -⟩
  · rfl
  · cases hplain

end Store

/-! ### What evaluation keeps up -/

/-- Every cell that was made is in the table. -/
def Environment.Complete (environment : Environment) : Prop :=
  ∀ cell ∈ environment.cells, cell.listed = true

namespace Environment

variable {environment : Environment}

theorem Complete.fetch (hcomplete : environment.Complete) (name : Bytes) :
    (environment.fetch name).2.Complete := by
  unfold Environment.fetch
  split
  · exact hcomplete
  · intro cell hmem
    rcases Array.mem_push.mp hmem with hmem | rfl
    · exact hcomplete cell hmem
    · rfl

theorem Complete.fetchAll (hcomplete : environment.Complete) (names : List Bytes) :
    (environment.fetchAll names).Complete := by
  induction names generalizing environment with
  | nil => exact hcomplete
  | cons name names ih =>
      rw [fetchAll_cons]
      exact ih (hcomplete.fetch name)

theorem Complete.assign (hcomplete : environment.Complete) (index : Nat) (value : Value) :
    (environment.assign index value).Complete := by
  intro cell hmem
  obtain ⟨position, hcell⟩ := Array.mem_iff_getElem?.mp hmem
  rw [Environment.assign, Array.getElem?_modify] at hcell
  split at hcell
  · obtain ⟨old, hold, rfl⟩ := Option.map_eq_some_iff.mp hcell
    exact hcomplete old (Array.mem_of_getElem? hold)
  · exact hcomplete cell (Array.mem_of_getElem? hcell)

theorem Complete.mem_indices (hcomplete : environment.Complete) {index : Nat} {value : Value}
    (hvalue : environment.value? index = some value) : index ∈ environment.indices := by
  obtain ⟨cell, hcell, -⟩ := Option.bind_eq_some_iff.mp hvalue
  have hlt : index < environment.cells.size := (Array.getElem?_eq_some_iff.mp hcell).1
  refine List.mem_filter.mpr ⟨List.mem_range.mpr hlt, ?_⟩
  simp [hcell, hcomplete cell (Array.mem_of_getElem? hcell)]

theorem exists_value?_of_mem_holds {value : Value} (hmem : value ∈ environment.holds) :
    ∃ index, environment.value? index = some value := by
  obtain ⟨cell, hcell, hvalue⟩ := exists_mem_of_mem_sum_map hmem
  obtain ⟨index, hindex⟩ := List.mem_iff_getElem?.mp hcell
  rw [Array.getElem?_toList] at hindex
  refine ⟨index, ?_⟩
  unfold Cell.holds at hvalue
  split at hvalue
  · next held hheld =>
      rw [Multiset.mem_singleton.mp hvalue, value?, hindex]
      exact hheld
  · simp at hvalue

theorem value?_unlist (index other : Nat) :
    (environment.unlist index).value? other =
      if index = other then none else environment.value? other := by
  simp only [unlist, value?, Array.getElem?_modify]
  split
  · cases environment.cells[other]? with
    | none => rfl
    | some cell => rfl
  · rfl

end Environment

namespace Machine

variable {machine after : Machine} {owned : Multiset Value}

/-- What the steps of a run keep up. -/
structure Tidy (machine : Machine) : Prop where
  layered : machine.store.Layered
  complete : machine.environment.Complete

theorem Moves.tidy (hmoves : machine.Moves after) (htidy : machine.Tidy) : after.Tidy := by
  cases hmoves with
  | trim htrims =>
      refine ⟨fun index node child hnode hmem => ?_, htidy.complete⟩
      obtain ⟨old, hold, -, hargs⟩ := htrims.nodes index node hnode
      exact htidy.layered index old child hold (hargs child hmem)
  | make function holder =>
      refine ⟨fun index node child hnode hmem => ?_, htidy.complete⟩
      simp only [Store.node?, Array.getElem?_push] at hnode
      split at hnode
      · next heq =>
          cases hnode
          rw [heq]
          exact holder child hmem
      · exact htidy.layered index node child hnode hmem
  | fetch name => exact ⟨htidy.layered, htidy.complete.fetch name⟩
  | assign cell value => exact ⟨htidy.layered, htidy.complete.assign cell value⟩
  | draw random => exact ⟨htidy.layered, htidy.complete⟩
  | exchange world => exact ⟨htidy.layered, htidy.complete⟩
  | nest depth => exact ⟨htidy.layered, htidy.complete⟩

theorem LeadsTo.tidy (hleads : machine.LeadsTo after) (htidy : machine.Tidy) : after.Tidy := by
  induction hleads with
  | refl => exact htidy
  | tail _ hmoves ih => exact hmoves.tidy ih

/-- A machine and what its host owns, after some evaluations with operations of the language. The
host starts with an empty machine and owns nothing; it owns what an evaluation gives, until it
releases it. Between evaluations it may change whatever concerns no payload. -/
inductive Evaluated : Machine → Multiset Value → Prop where
  | start {machine : Machine} :
      machine.store = {} → machine.environment = {} →
      (∀ function ∈ machine.functions.entries, function.IsAmong fun _ => True) →
      Evaluated machine 0
  | configured {machine after : Machine} {owned : Multiset Value} :
      Evaluated machine owned → after.store = machine.store →
      after.environment = machine.environment →
      (∀ function ∈ after.functions.entries, function.IsAmong fun _ => True) →
      Evaluated after owned
  | evaluated {machine after : Machine} {owned : Multiset Value} {value : Value}
      (source : Source) (label : Bytes) (fuel : Nat) :
      Evaluated machine owned →
      (Evaluator.within fuel machine).evaluate source label machine = .ok value after →
      Evaluated after (value ::ₘ owned)
  | failed {machine after : Machine} {owned : Multiset Value} {error : Error}
      (source : Source) (label : Bytes) (fuel : Nat) :
      Evaluated machine owned →
      (Evaluator.within fuel machine).evaluate source label machine = .error (.error error) after →
      Evaluated after owned
  | released {machine after : Machine} {owned : Multiset Value} {value : Value} :
      Evaluated machine owned → value ∈ owned → Run.release value machine = .ok ⟨⟩ after →
      Evaluated after (owned.erase value)

/-- An evaluation inside an area is made of steps, wherever it ends, and stays in the area. -/
theorem Confined.evaluate {allowed : Builtin → Prop} {area : Set Nat}
    (confined : machine.Confined allowed area) (source : Source) (label : Bytes) (fuel : Nat) :
    match (Evaluator.within fuel machine).evaluate source label machine with
    | .ok _ after => machine.LeadsTo after ∧ after.Confined allowed area
    | .error (.error _) after => machine.LeadsTo after ∧ after.Confined allowed area
    | .error _ after => machine.LeadsTo after := by
  have halike := (confined.relaxed le_rfl le_rfl id).alike_evaluate (fun _ => le_refl fuel) source
    label
  change Relaxation.Alike _ 0 _ ((Evaluator.within fuel machine).evaluate source label machine) _
    at halike
  generalize (Evaluator.within fuel machine).evaluate source label machine = first at halike ⊢
  generalize Evaluator.evaluate _ source label _ = second at halike
  cases halike with
  | ok _ beside => exact ⟨beside.leads, beside.confined⟩
  | error beside => exact ⟨beside.leads, beside.confined⟩
  | @cut stop _ _ hcut hleads =>
      cases stop with
      | error error =>
          rcases hcut with ⟨-, hdiffers⟩ | ⟨-, hdiffers⟩
          · exact absurd ⟨rfl, rfl⟩ hdiffers
          · exact absurd rfl hdiffers
      | fault fault => exact hleads
      | exhausted => exact hleads

namespace Evaluated

theorem reachable (hevaluated : Evaluated machine owned) : Reachable machine owned := by
  induction hevaluated with
  | start hstore henvironment => exact .start hstore henvironment
  | configured _ hstore henvironment _ ih => exact .configured ih hstore henvironment
  | evaluated source label fuel _ hevaluate ih =>
      have hperform : (Operation.evaluate source label).perform fuel _ = .ok (.value _) _ :=
        Run.bind_ok hevaluate
      have hreachable := Reachable.answered (.evaluate source label) fuel ih trivial hperform
      simpa [Answer.owned, Operation.leaves] using hreachable
  | @failed machine after _ error source label fuel _ hevaluate ih =>
      have hperform : (Operation.evaluate source label).perform fuel machine =
          .error (.error error) after := by
        simp only [Operation.perform, Operation.performWith, bind, EStateM.bind, hevaluate]
      exact .failed (.evaluate source label) fuel ih trivial hperform
  | released _ hmem hrelease ih =>
      have hperform : (Operation.release _).perform 0 _ = .ok .done _ := Run.bind_ok hrelease
      have hreachable := Reachable.answered (.release _) 0 ih hmem hperform
      simpa [Answer.owned, Operation.leaves] using hreachable

/-- Every evaluation so far has been of operations of the language, has left what new applications
own older than themselves, and has taken no variable out of the table. -/
theorem confined_and_tidy (hevaluated : Evaluated machine owned) :
    machine.Confined (fun _ => True) Set.univ ∧ machine.Tidy := by
  induction hevaluated with
  | @start machine hstore henvironment hfunctions =>
      have hnode (index : Nat) (node : Node) : machine.store.node? index ≠ some node := by
        simp [hstore, Store.node?]
      refine ⟨⟨?_, fun _ _ _ _ _ => trivial, ?_, fun _ _ => trivial⟩, ?_, ?_⟩
      · exact fun _ function hfind => hfunctions function (List.mem_of_find?_eq_some hfind)
      · exact fun index node _ hfound => absurd hfound (hnode index node)
      · exact fun index node _ hfound => absurd hfound (hnode index node)
      · intro cell hmem
        simp [henvironment] at hmem
  | configured _ hstore henvironment hfunctions ih =>
      obtain ⟨confined, htidy⟩ := ih
      refine ⟨⟨?_, fun _ _ _ _ _ => trivial, hstore ▸ confined.nodes, fun _ _ => trivial⟩,
        hstore ▸ htidy.layered, henvironment ▸ htidy.complete⟩
      exact fun _ function hfind => hfunctions function (List.mem_of_find?_eq_some hfind)
  | evaluated source label fuel _ hevaluate ih =>
      have hend := ih.1.evaluate source label fuel
      rw [hevaluate] at hend
      exact ⟨hend.2, hend.1.tidy ih.2⟩
  | failed source label fuel _ hevaluate ih =>
      have hend := ih.1.evaluate source label fuel
      rw [hevaluate] at hend
      exact ⟨hend.2, hend.1.tidy ih.2⟩
  | @released machine after _ value _ _ hrelease ih =>
      obtain ⟨store, htrims, hother | ⟨fault, hother⟩⟩ := Run.release_trims value machine
      · cases hother.symm.trans hrelease
        exact ⟨ih.1.trim htrims, (Moves.trim htrims).tidy ih.2⟩
      · cases hother.symm.trans hrelease

end Evaluated

/-! ### Giving up the variables -/

theorem unlist_environment {cell : Nat} (hunlist : Run.unlist cell machine = .ok ⟨⟩ after) :
    after.environment = machine.environment.unlist cell := by
  simp only [Run.unlist, bind, EStateM.bind, get_apply] at hunlist
  cases hvalue : machine.environment.value? cell with
  | none =>
      simp only [hvalue] at hunlist
      cases hunlist
      rfl
  | some value =>
      obtain ⟨store, -, hrelease | ⟨fault, hrelease⟩⟩ := Run.release_trims value machine
      · simp only [hvalue, EStateM.bind, hrelease] at hunlist
        cases hunlist
        rfl
      · simp only [hvalue, EStateM.bind, hrelease] at hunlist
        cases hunlist

/-- Cells that are taken out of the table are empty afterwards. -/
theorem value?_of_forM_unlist {cells : List Nat} {cell : Nat}
    (hunlist : cells.forM Run.unlist machine = .ok ⟨⟩ after)
    (hcell : cell ∈ cells ∨ machine.environment.value? cell = none) :
    after.environment.value? cell = none := by
  induction cells generalizing machine with
  | nil =>
      cases hunlist
      exact hcell.resolve_left List.not_mem_nil
  | cons first rest ih =>
      change EStateM.bind (Run.unlist first) (fun _ => rest.forM Run.unlist) machine = _ at hunlist
      unfold EStateM.bind at hunlist
      cases hfirst : Run.unlist first machine with
      | error stop middle =>
          rw [hfirst] at hunlist
          cases hunlist
      | ok _ middle =>
          rw [hfirst] at hunlist
          refine ih hunlist ?_
          rw [unlist_environment hfirst, Environment.value?_unlist]
          rcases hcell with hmem | hnone
          · rcases List.mem_cons.mp hmem with rfl | hmem
            · exact Or.inr (if_pos rfl)
            · exact Or.inl hmem
          · refine Or.inr ?_
            split
            · rfl
            · exact hnone

namespace InStep

variable {start lasting : Machine}

/-- What is live is what the variables and the host own. -/
theorem live_iff (instep : start.InStep owned machine lasting) (value : Value) :
    (machine.store.live? value).isSome ↔ value.isPlain = false ∧
      (machine.Retained value ∨
        ∃ root ∈ owned, Relation.ReflTransGen machine.store.Owns root value) := by
  constructor
  · intro hlive
    obtain ⟨root, hroot, -, hpath⟩ := instep.balanced.exists_root hlive
    refine ⟨Store.isPlain_of_live? hlive, ?_⟩
    rcases Multiset.mem_add.mp hroot with hheld | hmem
    · obtain ⟨cell, hcell⟩ := Environment.exists_value?_of_mem_holds hheld
      exact Or.inl ⟨cell, root, hcell, hpath⟩
    · exact Or.inr ⟨root, hmem, hpath⟩
  · rintro ⟨hplain, ⟨cell, held, hheld, hpath⟩ | ⟨root, hmem, hpath⟩⟩
    · exact instep.balanced.live_of_path
        (Multiset.mem_add.mpr (Or.inl (Environment.mem_holds_of_value? hheld))) hpath hplain
    · exact instep.balanced.live_of_path (Multiset.mem_add.mpr (Or.inr hmem)) hpath hplain

/-- When the host owns nothing that can be freed, what is live is what the variables own. -/
theorem live_iff_retained (instep : start.InStep owned machine lasting)
    (hplain : ∀ value ∈ owned, value.isPlain = true) (value : Value) :
    (machine.store.live? value).isSome ↔ value.isPlain = false ∧ machine.Retained value := by
  rw [instep.live_iff]
  refine and_congr_right fun howned => or_iff_left ?_
  rintro ⟨root, hmem, hpath⟩
  rw [Store.eq_of_path_of_isPlain (hplain root hmem) hpath, hplain root hmem] at howned
  cases howned

/-- Giving up the variables, in whatever order, frees everything that only they own. -/
theorem frees_all (instep : start.InStep owned machine lasting)
    (hcomplete : machine.environment.Complete) (hplain : ∀ value ∈ owned, value.isPlain = true)
    {order : List Nat} (horder : order.Perm machine.environment.indices) :
    ∃ after, order.forM Run.unlist machine = .ok ⟨⟩ after ∧
      ∀ value, after.store.live? value = none := by
  have hcells : ∀ cell ∈ order, cell < machine.environment.cells.size := by
    intro cell hmem
    exact List.mem_range.mp (List.mem_filter.mp (horder.mem_iff.mp hmem)).1
  obtain ⟨after, after', hunlist, -, hend⟩ := instep.forM_unlist order hcells
  refine ⟨after, hunlist, fun value => ?_⟩
  -- No variable was ever taken out of the table before, so the order names all that have a value.
  have hempty (cell : Nat) : after.environment.value? cell = none := by
    refine value?_of_forM_unlist hunlist ?_
    cases hvalue : machine.environment.value? cell with
    | none => exact Or.inr rfl
    | some held => exact Or.inl (horder.mem_iff.mpr (hcomplete.mem_indices hvalue))
  by_contra hlive
  obtain ⟨-, cell, held, hheld, -⟩ :=
    (hend.live_iff_retained hplain value).mp (Option.isSome_iff_ne_none.mpr hlive)
  rw [hempty cell] at hheld
  cases hheld

end InStep

/-- Evaluations are made of steps, wherever they end, and ownership has no cycles after any of them.
When the host owns nothing that can be freed, what is live is what the variables own, and giving
them up, in whatever order, frees everything. -/
theorem Evaluated.acyclic_and_frees_all (hevaluated : Evaluated machine owned) :
    (∀ source label fuel,
      match (Evaluator.within fuel machine).evaluate source label machine with
      | .ok _ after => machine.LeadsTo after
      | .error _ after => machine.LeadsTo after) ∧
    (∀ during, machine.LeadsTo during → during.store.Acyclic) ∧
    ((∀ value ∈ owned, value.isPlain = true) →
      (∀ value, (machine.store.live? value).isSome ↔
        value.isPlain = false ∧ machine.Retained value) ∧
      (∀ order : List Nat, order.Perm machine.environment.indices →
        ∃ after, order.forM Run.unlist machine = .ok ⟨⟩ after ∧
          ∀ value, after.store.live? value = none) ∧
      ∃ after, Run.reset machine = .ok ⟨⟩ after ∧ ∀ value, after.store.live? value = none) := by
  obtain ⟨confined, htidy⟩ := hevaluated.confined_and_tidy
  have instep := hevaluated.reachable.inStep
  refine ⟨fun source label fuel => ?_, fun during hleads => ?_, fun hplain => ⟨?_, ?_, ?_⟩⟩
  · have hend := confined.evaluate source label fuel
    split at hend
    · next hevaluate => simpa only [hevaluate] using hend.1
    · next hevaluate => simpa only [hevaluate] using hend.1
    · next hevaluate => simpa only [hevaluate] using hend
  · exact (hleads.tidy htidy).layered.acyclic
  · exact instep.live_iff_retained hplain
  · exact fun order => instep.frees_all htidy.complete hplain
  · exact instep.frees_all htidy.complete hplain (.refl machine.environment.indices)

/-- Nothing is lost either when an expression is built while it is read. Ownership has no cycles
then, and what is live is owned: the expression by the host, if it could be read. If it broke off,
giving up the variables frees everything that was built for it. -/
theorem Evaluated.acyclic_and_retained_after_building (hevaluated : Evaluated machine owned)
    (source : Source) (label : Bytes) :
    ∃ result rest built, Run.buildFrom source label machine = .ok (result, rest) built ∧
      built.store.Acyclic ∧
      match result with
      | .ok root => ∀ value, (built.store.live? value).isSome ↔ value.isPlain = false ∧
          (built.Retained value ∨
            ∃ owner ∈ root ::ₘ owned, Relation.ReflTransGen built.store.Owns owner value)
      | .error _ => (∀ value ∈ owned, value.isPlain = true) →
          (∀ value, (built.store.live? value).isSome ↔
            value.isPlain = false ∧ built.Retained value) ∧
          ∃ after, Run.reset built = .ok ⟨⟩ after ∧ ∀ value, after.store.live? value = none := by
  obtain ⟨result, rest, built, lasting, hbuild, ⟨names, hnames⟩, hend⟩ :=
    Run.buildFrom_inStep hevaluated.reachable.inStep.balanced source label
  refine ⟨result, rest, built, hbuild, Store.Layered.acyclic hend.balanced.older, ?_⟩
  cases result with
  | ok root => exact hend.live_iff
  | error error =>
      intro hplain
      rw [Run.Lockstep.parsed, zero_add] at hend
      have hcomplete : built.environment.Complete :=
        hnames ▸ hevaluated.confined_and_tidy.2.complete.fetchAll names
      exact ⟨hend.live_iff_retained hplain, hend.frees_all hcomplete hplain (.refl _)⟩

/-- Makes a variable hold a block that refers to the variable. -/
def selfReference : Source := { unread := "; = f B + 'xy' f N" }

theorem Evaluated.acyclic_and_frees_all_selfReference :
    ∃ machine after, Evaluated machine {.null} ∧ (machine.store.live? (.expr 0)).isSome ∧
      machine.Retained (.expr 0) ∧ machine.store.Acyclic ∧
      Run.reset machine = .ok ⟨⟩ after ∧ after.store.live? (.expr 0) = none := by
  have hstart : Evaluated {} 0 := .start rfl rfl (by decide)
  have hvalue : (match (Evaluator.within 0 {}).evaluate selfReference "EVAL" {} with
    | .ok value machine => decide (value = .null) && (machine.store.live? (.expr 0)).isSome
    | .error _ _ => false) = true := by decide +kernel
  split at hvalue
  · next value machine hevaluate =>
      obtain ⟨hnull, hlive⟩ := Bool.and_eq_true_iff.mp hvalue
      obtain rfl := of_decide_eq_true hnull
      have hevaluated := hstart.evaluated selfReference "EVAL" 0 hevaluate
      obtain ⟨-, hacyclic, hfree⟩ := hevaluated.acyclic_and_frees_all
      obtain ⟨hretained, -, after, hreset, hfreed⟩ := hfree (by simp [Value.isPlain])
      exact ⟨machine, after, hevaluated, hlive, ((hretained _).mp hlive).2, hacyclic _ .refl,
        hreset, hfreed _⟩
  · exact absurd hvalue Bool.false_ne_true

end Machine

end KnightLang
