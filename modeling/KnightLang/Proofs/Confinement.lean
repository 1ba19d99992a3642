import KnightLang.Evaluation
import Mathlib.Data.Set.Basic
import Mathlib.Tactic.SplitIfs

/-!
Which operations a run can come to. An application is met in a value, in a variable or as an
argument of another one, or is made while a program is read; so a run stays inside the area of what
could be reached at its start together with what is new.
-/

namespace KnightLang

/-- A function performs an operation of the language that is among the allowed ones. -/
def Function.IsAmong (function : Function) (allowed : Builtin → Prop) : Prop :=
  ∃ operation, function.action = .builtin operation ∧ allowed operation

instance (function : Function) (allowed : Builtin → Prop) [DecidablePred allowed] :
    Decidable (function.IsAmong allowed) :=
  match haction : function.action with
  | .builtin operation => decidable_of_iff (allowed operation) (by simp [Function.IsAmong, haction])
  | .host _ => isFalse (by simp [Function.IsAmong, haction])

theorem Store.args_of_node? {store : Store} {index : Nat} {node : Node}
    (hnode : store.node? index = some node) : store.args index = node.args := by
  simp [Store.args, hnode]

/-- An application can be reached from a value through arguments. -/
inductive Store.Reaches (store : Store) (value : Value) : Nat → Prop where
  | self {index : Nat} : value = .expr index → Reaches store value index
  | argument {index child : Nat} :
      Reaches store value index → .expr child ∈ store.args index → Reaches store value child

/-- Every application that can be reached from a value performs an allowed operation. -/
def Store.Only (store : Store) (allowed : Builtin → Prop) (value : Value) : Prop :=
  ∀ index node, store.Reaches value index → store.node? index = some node →
    node.function.IsAmong allowed

theorem Store.only_of_isLiteral {store : Store} {allowed : Builtin → Prop} {value : Value}
    (hliteral : value.isLiteral = true) : store.Only allowed value := by
  intro index node hreaches
  exfalso
  induction hreaches with
  | self heq =>
      rw [heq] at hliteral
      cases hliteral
  | argument _ _ ih => exact ih

theorem Store.only_of_forall {store : Store} {allowed : Builtin → Prop}
    (hnodes : ∀ node ∈ store.nodes, node.function.IsAmong allowed) (value : Value) :
    store.Only allowed value :=
  fun _ node _ hnode => hnodes node (Array.mem_of_getElem? hnode)

/-- Only allowed operations are to be had from the table of functions and from the variables. -/
structure Machine.Knows (machine : Machine) (allowed : Builtin → Prop) : Prop where
  functions : ∀ byte function, machine.functions.find? byte = some function →
    function.IsAmong allowed
  cells : ∀ cell value, machine.environment.value? cell = some value →
    machine.store.Only allowed value

theorem Machine.knows_of_forall {machine : Machine} {allowed : Builtin → Prop}
    (hfunctions : ∀ function ∈ machine.functions.entries, function.IsAmong allowed)
    (hnodes : ∀ node ∈ machine.store.nodes, node.function.IsAmong allowed) :
    machine.Knows allowed where
  functions _ function hfind := hfunctions function (List.mem_of_find?_eq_some hfind)
  cells _ value _ := Store.only_of_forall hnodes value

/-- A value that is no application outside an area. -/
def Value.Within (value : Value) (area : Set Nat) : Prop :=
  ∀ index, value = .expr index → index ∈ area

theorem Value.within_of_isLiteral {value : Value} {area : Set Nat}
    (hliteral : value.isLiteral = true) : value.Within area := by
  rintro index rfl
  simp [isLiteral] at hliteral

/-- The applications of an area perform allowed operations and lead to no others; everything new
belongs to the area. -/
structure Machine.Confined (machine : Machine) (allowed : Builtin → Prop) (area : Set Nat) :
    Prop where
  functions : ∀ byte function, machine.functions.find? byte = some function →
    function.IsAmong allowed
  cells : ∀ cell value, machine.environment.value? cell = some value → value.Within area
  nodes : ∀ index node, index ∈ area → machine.store.node? index = some node →
    node.function.IsAmong allowed ∧ ∀ value ∈ node.args, value.Within area
  fresh : ∀ index, machine.store.nodes.size ≤ index → index ∈ area

/-- What can be reached from a value and from the variables, and what is not yet made. -/
def Machine.area (machine : Machine) (value : Value) : Set Nat :=
  { index | machine.store.nodes.size ≤ index ∨ machine.store.Reaches value index ∨
    ∃ cell held, machine.environment.value? cell = some held ∧ machine.store.Reaches held index }

theorem Machine.Knows.confined {machine : Machine} {allowed : Builtin → Prop} {value : Value}
    (hknows : machine.Knows allowed) (honly : machine.store.Only allowed value) :
    machine.Confined allowed (machine.area value) where
  functions := hknows.functions
  cells cell held hheld := by
    rintro index rfl
    exact Or.inr (Or.inr ⟨cell, _, hheld, .self rfl⟩)
  nodes index node hmem hnode := by
    have hargs := Store.args_of_node? hnode
    have hlt : index < machine.store.nodes.size := (Array.getElem?_eq_some_iff.mp hnode).1
    rcases hmem with hfresh | hvalue | ⟨cell, held, hheld, hreaches⟩
    · omega
    · refine ⟨honly index node hvalue hnode, ?_⟩
      rintro _ hmem child rfl
      exact Or.inr (Or.inl (.argument hvalue (hargs ▸ hmem)))
    · refine ⟨hknows.cells cell held hheld index node hreaches hnode, ?_⟩
      rintro _ hmem child rfl
      exact Or.inr (Or.inr ⟨cell, held, hheld, .argument hreaches (hargs ▸ hmem)⟩)
  fresh index hle := Or.inl hle

theorem Machine.within_area (machine : Machine) (value : Value) :
    value.Within (machine.area value) := by
  rintro index rfl
  exact Or.inr (Or.inl (.self rfl))

namespace Store

/-- The same applications, of which some may have lost arguments. -/
structure Trims (before after : Store) : Prop where
  nodes_size : after.nodes.size = before.nodes.size
  nodes : ∀ index node, after.node? index = some node → ∃ old, before.node? index = some old ∧
    node.function = old.function ∧ ∀ child, .expr child ∈ node.args → .expr child ∈ old.args

namespace Trims

theorem refl (store : Store) : store.Trims store where
  nodes_size := rfl
  nodes _ node hnode := ⟨node, hnode, rfl, fun _ => id⟩

theorem trans {before middle after : Store} (first : before.Trims middle)
    (second : middle.Trims after) : before.Trims after where
  nodes_size := second.nodes_size.trans first.nodes_size
  nodes index node hnode := by
    obtain ⟨between, hbetween, hfunction, hargs⟩ := second.nodes index node hnode
    obtain ⟨old, hold, hfunction', hargs'⟩ := first.nodes index between hbetween
    exact ⟨old, hold, hfunction.trans hfunction', fun child hmem => hargs' child (hargs child hmem)⟩

theorem of_nodes_eq {before after : Store} (hnodes : after.nodes = before.nodes) :
    before.Trims after where
  nodes_size := by rw [hnodes]
  nodes index node hnode := by
    rw [node?, hnodes] at hnode
    exact ⟨node, hnode, rfl, fun _ => id⟩

theorem modifyNode (store : Store) (index : Nat) (change : Node → Node)
    (hfunction : ∀ node, (change node).function = node.function)
    (hargs : ∀ node child, .expr child ∈ (change node).args → .expr child ∈ node.args) :
    store.Trims { store with nodes := store.nodes.modify index change } where
  nodes_size := by simp
  nodes other node hnode := by
    simp only [node?, Array.getElem?_modify] at hnode
    split_ifs at hnode
    · obtain ⟨old, hold, rfl⟩ := Option.map_eq_some_iff.mp hnode
      exact ⟨old, hold, hfunction old, hargs old⟩
    · exact ⟨node, hnode, rfl, fun _ => id⟩

end Trims

/-- An action on the store that makes no application and gives none new arguments, however it
ends. -/
structure Trimming {α : Type} (action : StoreM α) : Prop where
  ok : ∀ {store after : Store} {value : α}, action store = .ok value after → store.Trims after
  error : ∀ {store after : Store} {fault : Fault}, action store = .error fault after →
    store.Trims after

section Trimming

variable {α β : Type}

theorem trimming_pure (value : α) : Trimming (pure value : StoreM α) where
  ok hpure := by
    cases hpure
    exact .refl _
  error hpure := nomatch hpure

theorem trimming_throw (fault : Fault) : Trimming (throw fault : StoreM α) where
  ok hthrow := nomatch hthrow
  error hthrow := by
    cases hthrow
    exact .refl _

theorem Trimming.bind {first : StoreM α} {next : α → StoreM β} (hfirst : Trimming first)
    (hnext : ∀ value, Trimming (next value)) : Trimming (first >>= next) := by
  constructor
  · intro store after result hbind
    simp only [Bind.bind, EStateM.bind] at hbind
    cases hresult : first store with
    | error fault middle =>
        rw [hresult] at hbind
        cases hbind
    | ok value middle =>
        rw [hresult] at hbind
        exact (hfirst.ok hresult).trans ((hnext value).ok hbind)
  · intro store after fault hbind
    simp only [Bind.bind, EStateM.bind] at hbind
    cases hresult : first store with
    | error fault middle =>
        rw [hresult] at hbind
        cases hbind
        exact hfirst.error hresult
    | ok value middle =>
        rw [hresult] at hbind
        exact (hfirst.ok hresult).trans ((hnext value).error hbind)

theorem trimming_get {next : Store → StoreM β} (hnext : ∀ store, Trimming (next store)) :
    Trimming (get >>= next) where
  ok {store _ _} hresult := (hnext store).ok hresult
  error {store _ _} hresult := (hnext store).error hresult

theorem trimming_modify {change : Store → Store}
    (hchange : ∀ store : Store, store.Trims (change store)) :
    Trimming (modify change) where
  ok hmodify := by
    cases hmodify
    exact hchange _
  error hmodify := nomatch hmodify

theorem trimming_addText (contents : Bytes) : Trimming (addText contents) where
  ok hadd := by
    cases hadd
    exact .of_nodes_eq rfl
  error hadd := nomatch hadd

theorem trimming_intern (contents : Bytes) : Trimming (intern contents) := by
  unfold intern
  split
  · exact trimming_pure _
  · exact trimming_addText contents

theorem trims_setNodeRefs (index refs : Nat) (store : Store) :
    store.Trims (store.setNodeRefs index refs) :=
  .modifyNode store index _ (fun _ => rfl) fun _ _ => id

theorem trims_clearArg (index position : Nat) (store : Store) :
    store.Trims (store.clearArg index position) := by
  refine .modifyNode store index _ (fun _ => rfl) fun node child hmem => ?_
  exact (List.mem_or_eq_of_mem_set hmem).resolve_right (by simp)

theorem trimming_retainText (text : TextRef) : Trimming (retainText text) := by
  cases text with
  | static text => exact trimming_pure _
  | owned index =>
      refine trimming_get fun store => ?_
      split
      · exact trimming_modify fun store => .of_nodes_eq rfl
      · exact trimming_throw _

theorem trimming_retain (value : Value) : Trimming (retain value) := by
  cases value with
  | string text => exact trimming_retainText text
  | expr index =>
      refine trimming_get fun store => ?_
      split
      · exact trimming_modify (trims_setNodeRefs index _)
      · exact trimming_throw _
  | null | boolean flag | number word | «variable» cell => exact trimming_pure _

theorem trimming_releaseText (text : TextRef) : Trimming (releaseText text) := by
  cases text with
  | static text => exact trimming_pure _
  | owned index =>
      refine trimming_get fun store => ?_
      split
      · exact trimming_modify fun store => .of_nodes_eq rfl
      · exact trimming_modify fun store => .of_nodes_eq rfl
      · exact trimming_throw _

theorem trimming_releaseArgs {release : Value → StoreM PUnit}
    (hrelease : ∀ value, Trimming (release value)) (index : Nat) (args : List Value)
    (position : Nat) : Trimming (releaseArgs release index position args) := by
  induction args generalizing position with
  | nil => exact trimming_pure _
  | cons value rest ih =>
      refine (hrelease value).bind fun _ => ?_
      exact (trimming_modify (trims_clearArg index position)).bind fun _ => ih (position + 1)

theorem trimming_releaseWithin (bound : Nat) (value : Value) :
    Trimming (releaseWithin bound value) := by
  induction bound generalizing value with
  | zero =>
      cases value with
      | string text => exact trimming_releaseText text
      | null | boolean flag | number word | «variable» cell | expr index =>
          exact trimming_pure _
  | succ bound ih =>
      cases value with
      | string text => exact trimming_releaseText text
      | expr index =>
          refine trimming_get fun store => ?_
          split
          · exact (trimming_modify (trims_setNodeRefs index 0)).bind fun _ =>
              trimming_releaseArgs ih index _ 0
          · exact trimming_modify (trims_setNodeRefs index _)
          · exact trimming_throw _
      | null | boolean flag | number word | «variable» cell => exact trimming_pure _

theorem trimming_release (value : Value) : Trimming (release value) :=
  trimming_get fun store => trimming_releaseWithin store.nodes.size value

theorem trimming_literalText (value : Value) : Trimming (literalText value) := by
  cases value with
  | number word =>
      change Trimming (numberText word)
      unfold numberText
      split_ifs
      · exact trimming_pure _
      · exact trimming_pure _
      · exact trimming_addText _
  | string text => exact (trimming_retain _).bind fun _ => trimming_pure _
  | null | boolean flag | «variable» cell | expr index => exact trimming_pure _

theorem trimming_share (text : TextRef) : Trimming (share text) :=
  (trimming_retain _).bind fun _ => trimming_pure _

theorem trimming_concat (first second : TextRef) : Trimming (concat first second) := by
  refine trimming_get fun store => ?_
  dsimp only
  split_ifs
  · exact trimming_share second
  · exact trimming_share first
  · exact trimming_pure _
  · exact (trimming_addText _).bind fun _ => trimming_pure _

theorem trimming_replicate (text : TextRef) (count : Int64) : Trimming (replicate text count) := by
  refine trimming_get fun store => ?_
  dsimp only
  split_ifs
  · exact trimming_pure _
  · exact trimming_pure _
  · exact trimming_share text
  · exact trimming_pure _
  · exact (trimming_addText _).bind fun _ => trimming_pure _

theorem trimming_substring (text : TextRef) (start length : Int64) :
    Trimming (substring text start length) := by
  refine trimming_get fun store => ?_
  dsimp only
  split_ifs
  · exact trimming_pure _
  · exact trimming_pure _
  · exact trimming_share text
  · exact (trimming_intern _).bind fun _ => trimming_pure _

theorem trimming_splice (text : TextRef) (start length : Int64) (replacement : TextRef) :
    Trimming (splice text start length replacement) := by
  refine trimming_get fun store => ?_
  dsimp only
  split_ifs
  · exact trimming_pure _
  · exact trimming_pure _
  · exact trimming_pure _
  · exact trimming_pure _
  · exact trimming_share replacement
  · exact trimming_share text
  · exact (trimming_addText _).bind fun _ => trimming_pure _

end Trimming

end Store

namespace Machine.Confined

variable {machine : Machine} {allowed : Builtin → Prop} {area : Set Nat}

/-- What neither functions, cells nor store take part in may change. -/
theorem keep {after : Machine} (confined : machine.Confined allowed area)
    (hfunctions : after.functions = machine.functions)
    (hcells : after.environment = machine.environment) (hstore : after.store = machine.store) :
    after.Confined allowed area where
  functions := hfunctions ▸ confined.functions
  cells := hcells ▸ confined.cells
  nodes := hstore ▸ confined.nodes
  fresh := hstore ▸ confined.fresh

theorem trim {after : Store} (confined : machine.Confined allowed area)
    (htrims : machine.store.Trims after) :
    Confined { machine with store := after } allowed area where
  functions := confined.functions
  cells := confined.cells
  nodes index node hmem hnode := by
    obtain ⟨old, hold, hfunction, hargs⟩ := htrims.nodes index node hnode
    obtain ⟨hamong, hwithin⟩ := confined.nodes index old hmem hold
    refine ⟨hfunction ▸ hamong, ?_⟩
    rintro _ hmem child rfl
    exact hwithin _ (hargs child hmem) child rfl
  fresh index hle := confined.fresh index (htrims.nodes_size ▸ hle)

theorem pushNode {function : Function} {args : List Value} (refs : Nat)
    (confined : machine.Confined allowed area) (hfunction : function.IsAmong allowed)
    (hargs : ∀ value ∈ args, value.Within area) :
    Confined
      { machine with
        store := { machine.store with nodes := machine.store.nodes.push { function, args, refs } } }
      allowed area where
  functions := confined.functions
  cells := confined.cells
  nodes index node hmem hnode := by
    simp only [Store.node?, Array.getElem?_push] at hnode
    split_ifs at hnode
    · cases hnode
      exact ⟨hfunction, hargs⟩
    · exact confined.nodes index node hmem hnode
  fresh index hle := by
    rw [Array.size_push] at hle
    exact confined.fresh index (by omega)

theorem fetch (confined : machine.Confined allowed area) (name : Bytes) :
    Confined { machine with environment := (machine.environment.fetch name).2 } allowed area where
  functions := confined.functions
  cells cell value hvalue := by
    refine confined.cells cell value ?_
    unfold Environment.fetch at hvalue
    split at hvalue
    · exact hvalue
    · simp only [Environment.value?, Array.getElem?_push] at hvalue
      split_ifs at hvalue
      · cases hvalue
      · exact hvalue
  nodes := confined.nodes
  fresh := confined.fresh

theorem assign {value : Value} (confined : machine.Confined allowed area)
    (hvalue : value.Within area) (cell : Nat) :
    Confined { machine with environment := machine.environment.assign cell value }
      allowed area where
  functions := confined.functions
  cells other held hheld := by
    simp only [Environment.assign, Environment.value?, Array.getElem?_modify] at hheld
    split_ifs at hheld
    · obtain ⟨old, hold, hvalue'⟩ := Option.bind_eq_some_iff.mp hheld
      obtain ⟨before, -, rfl⟩ := Option.map_eq_some_iff.mp hold
      cases hvalue'
      exact hvalue
    · exact confined.cells other held hheld
  nodes := confined.nodes
  fresh := confined.fresh

theorem args {node : Nat} (confined : machine.Confined allowed area) (hmem : node ∈ area)
    (position : Nat) : (machine.store.arg node position).Within area := by
  unfold Store.arg
  cases hnode : machine.store.node? node with
  | none => exact Value.within_of_isLiteral rfl
  | some found =>
      simp only [List.getD_eq_getElem?_getD]
      cases harg : found.args[position]? with
      | none => exact Value.within_of_isLiteral rfl
      | some value =>
          exact (confined.nodes node found hmem hnode).2 value (List.mem_of_getElem? harg)

end Machine.Confined

end KnightLang
