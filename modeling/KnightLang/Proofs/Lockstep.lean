import KnightLang.Evaluation
import KnightLang.Proofs.Counting

/-!
Two machines side by side: one counts references and frees payloads, the other keeps every payload
for good. As long as the first is balanced, the two give the same results, and whatever is live in
the first is also in the second.
-/

namespace KnightLang

/-- References are not counted, and nothing is ever freed. -/
@[reducible]
def Custody.lasting : Custody := { retain := fun _ => return, release := fun _ => return }

namespace Machine

/-- What the held values keep live in a machine. -/
def Guards (machine : Machine) (held : Multiset Value) (value : Value) : Prop :=
  machine.store.Guarded machine.environment.cells.size held value

theorem guards_cons_self (machine : Machine) (held : Multiset Value) (value : Value) :
    machine.Guards (value ::ₘ held) value := .held (Multiset.mem_cons_self value held)

/-- A machine that counts references and has come from `start` with the given values held, beside
one that keeps every payload. -/
structure InStep (start : Machine) (held : Multiset Value) (counting lasting : Machine) : Prop where
  balanced : counting.store.Balanced counting.environment.cells.size
    (counting.environment.holds + held)
  continues : start.store.Continues counting.store
  cells_le : start.environment.cells.size ≤ counting.environment.cells.size
  kept : lasting.store.Shrinks counting.store
  same : lasting = { counting with store := lasting.store }

end Machine

/-- Two runs that began side by side ended alike: with the same value, whose `gives` are then held
as well, with the same error, or both without having come to an end. -/
inductive Run.Lockstep {α : Type} (start : Machine) (held : Multiset Value)
    (gives : α → Multiset Value) :
    EStateM.Result Stop Machine α → EStateM.Result Stop Machine α → Prop where
  | ok {value : α} {counting lasting : Machine} :
      start.InStep (gives value + held) counting lasting →
      Lockstep start held gives (.ok value counting) (.ok value lasting)
  | error {error : Error} {counting lasting : Machine} :
      start.InStep held counting lasting →
      Lockstep start held gives (.error (.error error) counting) (.error (.error error) lasting)
  | exhausted {lost : Multiset Value} {counting lasting : Machine} :
      start.InStep (lost + held) counting lasting →
      Lockstep start held gives (.error .exhausted counting) (.error .exhausted lasting)

theorem Run.bind_ok {α β : Type} {first : Run α} {next : α → Run β} {machine after : Machine}
    {value : α} (hfirst : first machine = .ok value after) :
    (first >>= next) machine = next value after := by
  simp only [bind, EStateM.bind, hfirst]

theorem Run.bind_error {α β : Type} {first : Run α} {next : α → Run β} {machine after : Machine}
    {stop : Stop} (hfirst : first machine = .error stop after) :
    (first >>= next) machine = .error stop after := by
  simp only [bind, EStateM.bind, hfirst]

theorem Run.onStore_ok {α : Type} {action : StoreM α} {machine : Machine} {value : α}
    {after : Store} (haction : action machine.store = .ok value after) :
    Run.onStore action machine = .ok value { machine with store := after } := by
  simp only [Run.onStore, haction]

namespace Machine.InStep

variable {start middle counting lasting : Machine} {held : Multiset Value} {value : Value}

theorem rebase (first : start.InStep held middle lasting)
    {more : Multiset Value} {counting' lasting' : Machine}
    (second : middle.InStep more counting' lasting') : start.InStep more counting' lasting' where
  balanced := second.balanced
  continues := first.continues.trans second.continues
  cells_le := first.cells_le.trans second.cells_le
  kept := second.kept
  same := second.same

theorem restart (instep : start.InStep held counting lasting) :
    counting.InStep held counting lasting where
  balanced := instep.balanced
  continues := .refl _
  cells_le := le_rfl
  kept := instep.kept
  same := instep.same

theorem environment_eq (instep : start.InStep held counting lasting) :
    lasting.environment = counting.environment := by rw [instep.same]

theorem world_eq (instep : start.InStep held counting lasting) :
    lasting.world = counting.world := by rw [instep.same]

theorem guards {guard : Multiset Value} (instep : start.InStep held counting lasting)
    (hguards : start.Guards guard value) (hsub : guard ⊆ held) : counting.Guards held value :=
  (hguards.continues instep.continues instep.balanced
    (fun _ hmem => Multiset.mem_add.mpr (Or.inr (hsub hmem))) instep.cells_le).mono hsub

theorem held_subset (held : Multiset Value) (environment : Environment) :
    held ⊆ environment.holds + held := fun _ hmem => Multiset.mem_add.mpr (Or.inr hmem)

theorem live_of_guards (instep : start.InStep held counting lasting)
    (hguards : counting.Guards held value) (howned : value.isPlain = false) :
    ∃ payload, counting.store.live? value = some payload :=
  instep.balanced.live_of_guarded (held_subset held counting.environment) hguards howned

theorem bytes_eq {text : TextRef} (instep : start.InStep held counting lasting)
    (hguards : counting.Guards held (.string text)) :
    lasting.store.bytes text = counting.store.bytes text := by
  cases text with
  | static text => rfl
  | owned index =>
      obtain ⟨payload, hlive⟩ := instep.live_of_guards hguards rfl
      exact instep.kept.bytes_eq hlive

theorem node?_eq {index : Nat} (instep : start.InStep held counting lasting)
    (hguards : counting.Guards held (.expr index)) :
    ∃ function args, counting.store.live? (.expr index) = some (.application function args) ∧
      (∃ refs, counting.store.node? index = some { function, args, refs }) ∧
      ∃ refs, lasting.store.node? index = some { function, args, refs } := by
  obtain ⟨payload, hlive⟩ := instep.live_of_guards hguards rfl
  exact instep.kept.node?_eq hlive

theorem args_eq {index : Nat} (instep : start.InStep held counting lasting)
    (hguards : counting.Guards held (.expr index)) :
    lasting.store.args index = counting.store.args index ∧
      ∀ value ∈ counting.store.args index, counting.Guards held value := by
  obtain ⟨function, args, hlive, ⟨refs, hnode⟩, ⟨refs', hnode'⟩⟩ := instep.node?_eq hguards
  have hargs : counting.store.args index = args := by simp [Store.args, hnode]
  refine ⟨by simp [Store.args, hnode, hnode'], fun value hmem => ?_⟩
  exact .argument hguards hlive (hargs ▸ hmem)

theorem arg_eq {index : Nat} (instep : start.InStep held counting lasting)
    (hguards : counting.Guards held (.expr index)) (position : Nat) :
    lasting.store.arg index position = counting.store.arg index position ∧
      counting.Guards held (counting.store.arg index position) := by
  obtain ⟨function, args, hlive, ⟨refs, hnode⟩, ⟨refs', hnode'⟩⟩ := instep.node?_eq hguards
  refine ⟨by simp [Store.arg, hnode, hnode'], ?_⟩
  simp only [Store.arg, hnode]
  rw [List.getD_eq_getElem?_getD]
  cases harg : args[position]? with
  | none => exact .plain rfl (by simp)
  | some value => exact .argument hguards hlive (List.mem_of_getElem? harg)

theorem equal_eq {left right : Value} (instep : start.InStep held counting lasting)
    (hleft : counting.Guards held left) (hright : counting.Guards held right) :
    lasting.store.equal left right = counting.store.equal left right := by
  cases left with
  | string text =>
      cases right with
      | string other => simp only [Store.equal, instep.bytes_eq hleft, instep.bytes_eq hright]
      | null | boolean flag | number word | «variable» cell | expr index => rfl
  | null | boolean flag | number word | «variable» cell | expr index => rfl

/-- What neither store nor cells take part in may change alike in both machines. -/
theorem update {counting' lasting' : Machine} (instep : start.InStep held counting lasting)
    (hstore : counting'.store = counting.store)
    (hcells : counting'.environment = counting.environment)
    (hlasting : lasting'.store = lasting.store)
    (hsame : lasting' = { counting' with store := lasting'.store }) :
    start.InStep held counting' lasting' where
  balanced := by rw [hstore, hcells]; exact instep.balanced
  continues := by rw [hstore]; exact instep.continues
  cells_le := by rw [hcells]; exact instep.cells_le
  kept := by rw [hstore, hlasting]; exact instep.kept
  same := hsame

/-! ### Changes of the store -/

/-- The counting machine may free payloads on its own. -/
theorem shrink {more : Multiset Value} (instep : start.InStep held counting lasting) {after : Store}
    (hshrinks : counting.store.Shrinks after)
    (hbalanced : after.Balanced counting.environment.cells.size
      (counting.environment.holds + more)) :
    start.InStep more { counting with store := after } lasting where
  balanced := hbalanced
  continues := instep.continues.trans hshrinks.continues
  cells_le := instep.cells_le
  kept := instep.kept.trans hshrinks
  same := instep.same

/-- A value without a payload of its own can be held for nothing. -/
theorem plain (instep : start.InStep held counting lasting) (hplain : value.isPlain = true)
    (hcell : ∀ cell, value = .variable cell → cell < counting.environment.cells.size) :
    start.InStep (value ::ₘ held) counting lasting where
  balanced := by rw [Multiset.add_cons]; exact instep.balanced.cons_plain hplain hcell
  continues := instep.continues
  cells_le := instep.cells_le
  kept := instep.kept
  same := instep.same

theorem hold_cell {cell : Nat} (instep : start.InStep held counting lasting)
    (hcell : cell < counting.environment.cells.size) :
    start.InStep (.variable cell ::ₘ held) counting lasting := by
  refine instep.plain rfl ?_
  intro other heq
  obtain rfl := Value.variable.inj heq
  exact hcell

theorem unhold_plain (instep : start.InStep (value ::ₘ held) counting lasting)
    (hplain : value.isPlain = true) : start.InStep held counting lasting where
  balanced := by
    have hbalanced := instep.balanced
    rw [Multiset.add_cons] at hbalanced
    exact hbalanced.of_cons_plain hplain
  continues := instep.continues
  cells_le := instep.cells_le
  kept := instep.kept
  same := instep.same

theorem cell_lt {cell : Nat} (instep : start.InStep held counting lasting)
    (hguards : counting.Guards held (.variable cell)) : cell < counting.environment.cells.size :=
  instep.balanced.cell_lt_of_guarded (held_subset held counting.environment) hguards

theorem retain {guard : Multiset Value} (instep : start.InStep held counting lasting)
    (hguards : counting.Guards guard value) (hsub : guard ⊆ counting.environment.holds + held) :
    ∃ after, @Run.retain .counting value counting = .ok ⟨⟩ after ∧
      @Run.retain .lasting value lasting = .ok ⟨⟩ lasting ∧
      start.InStep (value ::ₘ held) after lasting := by
  obtain ⟨after, hretain, hbalanced, hshrinks⟩ :=
    instep.balanced.retain hsub hguards
  refine ⟨_, Run.onStore_ok hretain, rfl, instep.shrink hshrinks ?_⟩
  rwa [Multiset.add_cons]

theorem release (instep : start.InStep (value ::ₘ held) counting lasting) :
    ∃ after, @Run.release .counting value counting = .ok ⟨⟩ after ∧
      @Run.release .lasting value lasting = .ok ⟨⟩ lasting ∧ start.InStep held after lasting := by
  have hbalanced := instep.balanced
  rw [Multiset.add_cons] at hbalanced
  obtain ⟨after, hrelease, hafter, hshrinks⟩ := hbalanced.release
  exact ⟨_, Run.onStore_ok hrelease, rfl, instep.shrink hshrinks hafter⟩

theorem addText (instep : start.InStep held counting lasting) (contents : Bytes) :
    ∃ text after after', Run.onStore (Store.addText contents) counting = .ok text after ∧
      Run.onStore (Store.addText contents) lasting = .ok text after' ∧
      start.InStep (.string text ::ₘ held) after after' := by
  refine ⟨.owned counting.store.texts.size, _,
    { lasting with
      store := { lasting.store with
        texts := lasting.store.texts.push { bytes := contents, refs := 1 } } }, rfl, ?_, ?_⟩
  · rw [instep.kept.texts_size]
    rfl
  · exact
      { balanced := by rw [Multiset.add_cons]; exact instep.balanced.pushText contents
        continues := instep.continues.trans (Store.continues_pushText _ _)
        cells_le := instep.cells_le
        kept := instep.kept.pushText { bytes := contents, refs := 1 }
        same := by rw [instep.same] }

theorem addNode {args : List Value} (instep : start.InStep (args + held) counting lasting)
    (function : Function) :
    ∃ value after after', Run.onStore (Store.addNode function args) counting = .ok value after ∧
      Run.onStore (Store.addNode function args) lasting = .ok value after' ∧
      start.InStep (value ::ₘ held) after after' := by
  refine ⟨.expr counting.store.nodes.size, _,
    { lasting with
      store := { lasting.store with
        nodes := lasting.store.nodes.push { function, args, refs := 1 } } }, rfl, ?_, ?_⟩
  · rw [instep.kept.nodes_size]
    rfl
  · have hbalanced := instep.balanced
    rw [add_left_comm] at hbalanced
    exact
      { balanced := by rw [Multiset.add_cons]; exact hbalanced.pushNode function
        continues := instep.continues.trans (Store.continues_pushNode _ _)
        cells_le := instep.cells_le
        kept := instep.kept.pushNode { function, args, refs := 1 }
        same := by rw [instep.same] }

theorem intern (instep : start.InStep held counting lasting) (contents : Bytes) :
    ∃ text after after', Run.onStore (Store.intern contents) counting = .ok text after ∧
      Run.onStore (Store.intern contents) lasting = .ok text after' ∧
      start.InStep (.string text ::ₘ held) after after' := by
  cases hstatic : StaticText.find? contents with
  | some text =>
      refine ⟨.static text, counting, lasting, ?_, ?_, instep.plain rfl (by simp)⟩ <;>
        simp [Run.onStore, Store.intern, hstatic, pure, EStateM.pure]
  | none =>
      simp only [Store.intern, hstatic]
      exact instep.addText contents

/-! ### Changes of the cells -/

theorem fetch (instep : start.InStep held counting lasting) (name : Bytes) :
    ∃ cell after after', Run.fetch name counting = .ok cell after ∧
      Run.fetch name lasting = .ok cell after' ∧ cell < after.environment.cells.size ∧
      start.InStep held after after' := by
  refine ⟨(counting.environment.fetch name).1,
    { counting with environment := (counting.environment.fetch name).2 },
    { lasting with environment := (counting.environment.fetch name).2 }, rfl, ?_,
    Environment.fetch_lt_size _ _, ?_⟩
  · rw [← instep.environment_eq]
    rfl
  · have hsize := Environment.size_le_size_fetch counting.environment name
    exact
      { balanced := by
          rw [Environment.holds_fetch]
          exact instep.balanced.more_cells hsize
        continues := instep.continues
        cells_le := instep.cells_le.trans hsize
        kept := instep.kept
        same := by rw [instep.same] }

theorem assign {cell : Nat} (instep : start.InStep (value ::ₘ held) counting lasting)
    (hcell : cell < counting.environment.cells.size) :
    ∃ after after', @Run.assign .counting cell value counting = .ok ⟨⟩ after ∧
      @Run.assign .lasting cell value lasting = .ok ⟨⟩ after' ∧ start.InStep held after after' := by
  -- The cell takes over the value that was held, and the value it had is held in its place.
  have hassigned : start.InStep
      (((counting.environment.value? cell).elim 0 fun old => {old}) + held)
      { counting with environment := counting.environment.assign cell value }
      { lasting with environment := counting.environment.assign cell value } :=
    { balanced := by
        have hholds := Environment.holds_assign hcell value
        rw [← add_assoc, hholds, Multiset.cons_add, ← Multiset.add_cons]
        simpa [Environment.assign] using instep.balanced
      continues := instep.continues
      cells_le := by simpa [Environment.assign] using instep.cells_le
      kept := instep.kept
      same := by rw [instep.same] }
  cases hold : counting.environment.value? cell with
  | none =>
      rw [hold, Option.elim_none, zero_add] at hassigned
      refine ⟨_, _, ?_, ?_, hassigned⟩
      · simp [Run.assign, bind, EStateM.bind, hold]
        rfl
      · simp [Run.assign, bind, EStateM.bind, instep.environment_eq, hold]
        rfl
  | some old =>
      rw [hold, Option.elim_some, Multiset.singleton_add] at hassigned
      obtain ⟨after, hcounting, hlasting, hreleased⟩ := hassigned.release
      refine ⟨after, _, ?_, ?_, hreleased⟩
      · simpa [Run.assign, bind, EStateM.bind, hold] using hcounting
      · simpa [Run.assign, bind, EStateM.bind, instep.environment_eq, hold] using hlasting

theorem unlist {cell : Nat} (instep : start.InStep held counting lasting)
    (hcell : cell < counting.environment.cells.size) :
    ∃ after after', @Run.unlist .counting cell counting = .ok ⟨⟩ after ∧
      @Run.unlist .lasting cell lasting = .ok ⟨⟩ after' ∧
      after.environment.cells.size = counting.environment.cells.size ∧
      start.InStep held after after' := by
  have hsize : (counting.environment.unlist cell).cells.size =
      counting.environment.cells.size := by simp [Environment.unlist]
  -- What the cell has is counted as held, so that releasing it leaves what the other cells have.
  have hemptied {after : Store} (hshrinks : counting.store.Shrinks after)
      (hbalanced : after.Balanced counting.environment.cells.size
        ((counting.environment.unlist cell).holds + held)) :
      start.InStep held
        { counting with store := after, environment := counting.environment.unlist cell }
        { lasting with environment := counting.environment.unlist cell } :=
    { balanced := by rw [hsize]; exact hbalanced
      continues := instep.continues.trans hshrinks.continues
      cells_le := instep.cells_le.trans hsize.ge
      kept := instep.kept.trans hshrinks
      same := by rw [instep.same] }
  have hbalanced := instep.balanced
  rw [← Environment.holds_unlist hcell] at hbalanced
  cases hvalue : counting.environment.value? cell with
  | none =>
      rw [hvalue, Option.elim_none, add_zero] at hbalanced
      refine ⟨_, _, ?_, ?_, hsize, hemptied (.refl counting.store) hbalanced⟩
      · simp [Run.unlist, bind, EStateM.bind, hvalue]
      · simp [Run.unlist, bind, EStateM.bind, instep.environment_eq, hvalue]
  | some value =>
      rw [hvalue, Option.elim_some, add_assoc, Multiset.singleton_add, Multiset.add_cons]
        at hbalanced
      obtain ⟨after, hrelease, hreleased, hshrinks⟩ := hbalanced.release
      have hcounting : @Run.release .counting value counting =
          .ok ⟨⟩ { counting with store := after } := Run.onStore_ok hrelease
      have hlasting : @Run.release .lasting value lasting = .ok ⟨⟩ lasting := rfl
      refine ⟨_, _, ?_, ?_, hsize, hemptied hshrinks hreleased⟩
      · simp [Run.unlist, bind, EStateM.bind, hvalue, hcounting]
      · simp [Run.unlist, bind, EStateM.bind, instep.environment_eq, hvalue, hlasting]

theorem forM_unlist (cells : List Nat) {counting lasting : Machine}
    (instep : start.InStep held counting lasting)
    (hcells : ∀ cell ∈ cells, cell < counting.environment.cells.size) :
    ∃ after after', cells.forM (@Run.unlist .counting) counting = .ok ⟨⟩ after ∧
      cells.forM (@Run.unlist .lasting) lasting = .ok ⟨⟩ after' ∧
      start.InStep held after after' := by
  induction cells generalizing counting lasting with
  | nil => exact ⟨counting, lasting, rfl, rfl, instep⟩
  | cons cell rest ih =>
      obtain ⟨middle, middle', hcounting, hlasting, hsize, hmiddle⟩ :=
        instep.unlist (hcells cell List.mem_cons_self)
      have hrest : ∀ cell ∈ rest, cell < middle.environment.cells.size := by
        intro cell hmem
        rw [hsize]
        exact hcells cell (List.mem_cons_of_mem _ hmem)
      obtain ⟨after, after', hcounting', hlasting', hafter⟩ := ih hmiddle hrest
      exact ⟨after, after', (Run.bind_ok hcounting).trans hcounting',
        (Run.bind_ok hlasting).trans hlasting', hafter⟩

theorem reset (instep : start.InStep held counting lasting) :
    ∃ after after', @Run.reset .counting counting = .ok ⟨⟩ after ∧
      @Run.reset .lasting lasting = .ok ⟨⟩ after' ∧ start.InStep held after after' := by
  have hindices : ∀ cell ∈ counting.environment.indices,
      cell < counting.environment.cells.size := by
    intro cell hmem
    exact List.mem_range.mp (List.mem_filter.mp hmem).1
  obtain ⟨after, after', hcounting, hlasting, hafter⟩ := instep.forM_unlist _ hindices
  rw [← instep.environment_eq] at hlasting
  exact ⟨after, after', hcounting, hlasting, hafter⟩

end Machine.InStep

end KnightLang
