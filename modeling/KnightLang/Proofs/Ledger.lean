import KnightLang.Environment
import KnightLang.Store
import Mathlib.Algebra.Order.Group.Multiset
import Mathlib.Tactic.Abel

/-!
Who owns what. The owners of a payload are the slots that hold a value naming it: cells, arguments
of live applications, and whatever else is held outside the store. A store is balanced when every
payload has as many references as owners.
-/

namespace KnightLang

/-- What a payload consists of. -/
inductive Payload where
  | text (bytes : Bytes)
  | application (function : Function) (args : List Value)

@[elab_as_elim]
theorem Value.payloadCases {motive : Value → Prop}
    (plain : ∀ value : Value, value.isPlain = true → motive value)
    (text : ∀ index, motive (.string (.owned index)))
    (application : ∀ index, motive (.expr index)) (value : Value) : motive value := by
  cases value with
  | string reference =>
      cases reference with
      | static contents => exact plain _ rfl
      | owned index => exact text index
  | expr index => exact application index
  | null | boolean flag | number word | «variable» cell => exact plain _ rfl

theorem Value.ne_owned_of_isPlain {value : Value} (hplain : value.isPlain = true) (index : Nat) :
    value ≠ .string (.owned index) := by
  rintro rfl
  simp [isPlain] at hplain

theorem Value.ne_expr_of_isPlain {value : Value} (hplain : value.isPlain = true) (index : Nat) :
    value ≠ .expr index := by
  rintro rfl
  simp [isPlain] at hplain

def Text.payload? (text : Text) : Option Payload :=
  if text.refs = 0 then none else some (.text text.bytes)

def Node.payload? (node : Node) : Option Payload :=
  if node.refs = 0 then none else some (.application node.function node.args)

@[simp]
theorem Text.payload?_eq_some_iff {text : Text} {payload : Payload} :
    text.payload? = some payload ↔ text.refs ≠ 0 ∧ .text text.bytes = payload := by
  simp [payload?]

@[simp]
theorem Node.payload?_eq_some_iff {node : Node} {payload : Payload} :
    node.payload? = some payload ↔
      node.refs ≠ 0 ∧ .application node.function node.args = payload := by
  simp [payload?]

def Node.holds (node : Node) : Multiset Value := if node.refs = 0 then 0 else node.args

def Cell.holds (cell : Cell) : Multiset Value :=
  match cell.value with
  | some value => {value}
  | none => 0

/-- The values in the cells of an environment. -/
def Environment.holds (environment : Environment) : Multiset Value :=
  (environment.cells.toList.map Cell.holds).sum

namespace Store

/-- The values in the argument slots of live applications. -/
def holds (store : Store) : Multiset Value := (store.nodes.toList.map Node.holds).sum

/-- The number of references to the payload of a value, if it has an owned one. -/
def refs? (store : Store) : Value → Option Nat
  | .string text => store.textRefs? text
  | .expr index => some (store.nodeRefs index)
  | _ => none

/-- What the payload of a value consists of, while it is live. -/
def live? (store : Store) : Value → Option Payload
  | .string (.owned index) => (store.text? index).bind Text.payload?
  | .expr index => (store.node? index).bind Node.payload?
  | _ => none

/-- Whether the payload of a value was made at some time. -/
def Made (store : Store) : Value → Prop
  | .string (.owned index) => index < store.texts.size
  | .expr index => index < store.nodes.size
  | _ => True

/-- Every payload has as many references as owners, an application refers to older ones only, and
every variable that is referred to has its cell. -/
structure Balanced (store : Store) (cells : Nat) (outside : Multiset Value) : Prop where
  counts : ∀ value refs, store.refs? value = some refs →
    refs = (store.holds + outside).count value
  older : ∀ index node child, store.node? index = some node → .expr child ∈ node.args →
    child < index
  known : ∀ cell, .variable cell ∈ store.holds + outside → cell < cells

/-- Nothing that was made before is live later with other contents. -/
structure Continues (before after : Store) : Prop where
  texts_le : before.texts.size ≤ after.texts.size
  nodes_le : before.nodes.size ≤ after.nodes.size
  live : ∀ value payload, before.Made value → after.live? value = some payload →
    before.live? value = some payload

/-- A value that stays live as long as the held values are: one of them, one in an argument slot of
such a value, or one without an owned payload. -/
inductive Guarded (store : Store) (cells : Nat) (held : Multiset Value) : Value → Prop where
  | plain {value : Value} : value.isPlain = true →
      (∀ cell, value = .variable cell → cell < cells) → Guarded store cells held value
  | held {value : Value} : value ∈ held → Guarded store cells held value
  | argument {index : Nat} {function : Function} {args : List Value} {value : Value} :
      Guarded store cells held (.expr index) →
      store.live? (.expr index) = some (.application function args) → value ∈ args →
      Guarded store cells held value

end Store

theorem sum_map_modify_add {α : Type} (weight : α → Multiset Value) (change : α → α)
    (items : List α) (index : Nat) (item : α) (hitem : items[index]? = some item) :
    ((items.modify index change).map weight).sum + weight item =
      (items.map weight).sum + weight (change item) := by
  induction items generalizing index with
  | nil => simp at hitem
  | cons first rest ih =>
      cases index with
      | zero =>
          simp only [List.getElem?_cons_zero, Option.some.injEq] at hitem
          subst hitem
          simp only [List.modify_zero_cons, List.map_cons, List.sum_cons]
          abel
      | succ index =>
          simp only [List.getElem?_cons_succ] at hitem
          simp only [List.modify_succ_cons, List.map_cons, List.sum_cons]
          rw [add_assoc, ih index hitem]
          abel

namespace Store

variable {store : Store} {index : Nat}

/-! ### What each update of a store changes -/

@[simp]
theorem text?_modify (change : Text → Text) (other : Nat) :
    text? { store with texts := store.texts.modify index change } other =
      if index = other then (store.text? other).map change else store.text? other := by
  simp only [text?, Array.getElem?_modify]

@[simp]
theorem node?_modify (change : Node → Node) (other : Nat) :
    node? { store with nodes := store.nodes.modify index change } other =
      if index = other then (store.node? other).map change else store.node? other := by
  simp only [node?, Array.getElem?_modify]

@[simp]
theorem text?_setTextRefs (refs other : Nat) :
    (store.setTextRefs index refs).text? other =
      if index = other then (store.text? other).map fun text => { text with refs }
      else store.text? other := text?_modify ..

@[simp]
theorem node?_setNodeRefs (refs other : Nat) :
    (store.setNodeRefs index refs).node? other =
      if index = other then (store.node? other).map fun node => { node with refs }
      else store.node? other := node?_modify ..

theorem holds_modify_add {node : Node} (hnode : store.node? index = some node)
    (change : Node → Node) :
    holds { store with nodes := store.nodes.modify index change } + node.holds =
      store.holds + (change node).holds := by
  unfold holds
  rw [Array.toList_modify]
  refine sum_map_modify_add Node.holds change _ index node ?_
  rw [Array.getElem?_toList]
  exact hnode

theorem holds_setNodeRefs_of_live {node : Node} (hnode : store.node? index = some node)
    (hlive : node.refs ≠ 0) {refs : Nat} (hrefs : refs ≠ 0) :
    (store.setNodeRefs index refs).holds = store.holds := by
  have hmodify := holds_modify_add hnode fun node => { node with refs := refs }
  simp only [Node.holds, if_neg hlive, if_neg hrefs] at hmodify
  exact add_right_cancel hmodify

theorem holds_setNodeRefs_zero_add {node : Node} (hnode : store.node? index = some node)
    (hlive : node.refs ≠ 0) :
    (store.setNodeRefs index 0).holds + node.args = store.holds := by
  have hmodify := holds_modify_add hnode fun node => { node with refs := 0 }
  simp only [Node.holds, if_neg hlive, ↓reduceIte, add_zero] at hmodify
  exact hmodify

theorem holds_clearArg {node : Node} (hnode : store.node? index = some node)
    (hdead : node.refs = 0) (position : Nat) :
    (store.clearArg index position).holds = store.holds := by
  have hmodify := holds_modify_add hnode fun node =>
    { node with args := node.args.set position .null }
  simp only [Node.holds, if_pos hdead, add_zero] at hmodify
  exact hmodify

@[simp]
theorem holds_push (node : Node) :
    holds { store with nodes := store.nodes.push node } = store.holds + node.holds := by
  simp [holds]

/-! ### References and contents, text by text and application by application -/

@[simp]
theorem refs?_owned (other : Nat) :
    store.refs? (.string (.owned other)) = some (((store.text? other).map Text.refs).getD 0) := rfl

@[simp]
theorem refs?_expr (other : Nat) :
    store.refs? (.expr other) = some (((store.node? other).map Node.refs).getD 0) := rfl

@[simp]
theorem live?_owned (other : Nat) :
    store.live? (.string (.owned other)) = (store.text? other).bind Text.payload? := rfl

@[simp]
theorem live?_expr (other : Nat) :
    store.live? (.expr other) = (store.node? other).bind Node.payload? := rfl

@[simp]
theorem refs?_of_isPlain : ∀ {value : Value}, value.isPlain = true → store.refs? value = none
  | .null, _ | .boolean _, _ | .number _, _ | .variable _, _ | .string (.static _), _ => rfl

@[simp]
theorem live?_of_isPlain : ∀ {value : Value}, value.isPlain = true → store.live? value = none
  | .null, _ | .boolean _, _ | .number _, _ | .variable _, _ | .string (.static _), _ => rfl

theorem live?_owned_eq_some_iff {payload : Payload} :
    store.live? (.string (.owned index)) = some payload ↔
      ∃ text, store.text? index = some text ∧ text.refs ≠ 0 ∧ .text text.bytes = payload := by
  simp [Option.bind_eq_some_iff]

theorem live?_expr_eq_some_iff {payload : Payload} :
    store.live? (.expr index) = some payload ↔
      ∃ node, store.node? index = some node ∧ node.refs ≠ 0 ∧
        .application node.function node.args = payload := by
  simp [Option.bind_eq_some_iff]

/-- A payload is live exactly as long as it has references. -/
theorem live?_isSome_iff {value : Value} :
    (store.live? value).isSome ↔ ∃ refs, store.refs? value = some refs ∧ 0 < refs := by
  induction value using Value.payloadCases with
  | plain value hplain => simp [hplain]
  | text other =>
      cases htext : store.text? other with
      | none => simp [htext]
      | some text => simp [htext, Option.isSome_iff_exists, Nat.pos_iff_ne_zero]
  | application other =>
      cases hnode : store.node? other with
      | none => simp [hnode]
      | some node => simp [hnode, Option.isSome_iff_exists, Nat.pos_iff_ne_zero]

namespace Continues

variable {before middle after : Store}

theorem refl (store : Store) : store.Continues store :=
  ⟨le_rfl, le_rfl, fun _ _ _ hlive => hlive⟩

theorem made (continues : before.Continues after) {value : Value} (hmade : before.Made value) :
    after.Made value := by
  induction value using Value.payloadCases with
  | plain value hplain =>
      unfold Made
      split <;> simp_all [Value.isPlain]
  | text index => exact lt_of_lt_of_le hmade continues.texts_le
  | application index => exact lt_of_lt_of_le hmade continues.nodes_le

theorem trans (first : before.Continues middle) (second : middle.Continues after) :
    before.Continues after where
  texts_le := first.texts_le.trans second.texts_le
  nodes_le := first.nodes_le.trans second.nodes_le
  live value payload hmade hlive :=
    first.live value payload hmade (second.live value payload (first.made hmade) hlive)

end Continues

theorem made_of_live? {value : Value} {payload : Payload}
    (hlive : store.live? value = some payload) : store.Made value := by
  induction value using Value.payloadCases with
  | plain value hplain => simp [hplain] at hlive
  | text index =>
      obtain ⟨text, htext, -⟩ := live?_owned_eq_some_iff.mp hlive
      exact (Array.getElem?_eq_some_iff.mp htext).1
  | application index =>
      obtain ⟨node, hnode, -⟩ := live?_expr_eq_some_iff.mp hlive
      exact (Array.getElem?_eq_some_iff.mp hnode).1

theorem node?_of_live? {function : Function} {args : List Value}
    (hlive : store.live? (.expr index) = some (.application function args)) :
    ∃ refs, refs ≠ 0 ∧ store.node? index = some { function, args, refs } := by
  obtain ⟨node, hnode, hrefs, heq⟩ := live?_expr_eq_some_iff.mp hlive
  obtain ⟨rfl, rfl⟩ := Payload.application.inj heq
  exact ⟨node.refs, hrefs, hnode⟩

theorem bytes_of_live? {payload : Payload}
    (hlive : store.live? (.string (.owned index)) = some payload) :
    payload = .text (store.bytes (.owned index)) := by
  obtain ⟨text, htext, -, rfl⟩ := live?_owned_eq_some_iff.mp hlive
  rw [bytes, htext]
  rfl

theorem application_of_live? {payload : Payload}
    (hlive : store.live? (.expr index) = some payload) :
    ∃ function args, payload = .application function args := by
  obtain ⟨node, -, -, rfl⟩ := live?_expr_eq_some_iff.mp hlive
  exact ⟨_, _, rfl⟩

theorem mem_holds_of_live? {function : Function} {args : List Value} {value : Value}
    (hlive : store.live? (.expr index) = some (.application function args))
    (hmem : value ∈ args) : value ∈ store.holds := by
  obtain ⟨refs, hrefs, hnode⟩ := node?_of_live? hlive
  rw [← holds_setNodeRefs_zero_add hnode hrefs]
  exact Multiset.mem_add.mpr (Or.inr (Multiset.mem_coe.mpr hmem))

namespace Guarded

variable {cells : Nat} {held : Multiset Value} {value : Value}

theorem mono {more : Multiset Value} (guarded : store.Guarded cells held value)
    (hsub : held ⊆ more) : store.Guarded cells more value := by
  induction guarded with
  | plain hplain hcell => exact .plain hplain hcell
  | held hmem => exact .held (hsub hmem)
  | argument _ hlive hmem ih => exact .argument ih hlive hmem

end Guarded

namespace Balanced

variable {cells : Nat} {held outside : Multiset Value} {value : Value}

theorem live_of_mem (balanced : store.Balanced cells outside)
    (hmem : value ∈ store.holds + outside) (howned : value.isPlain = false) :
    ∃ payload, store.live? value = some payload := by
  rw [← Option.isSome_iff_exists, live?_isSome_iff]
  have hcount : 0 < (store.holds + outside).count value := Multiset.count_pos.mpr hmem
  have hrefs : ∃ refs, store.refs? value = some refs := by
    unfold Value.isPlain at howned
    split at howned
    · exact ⟨_, refs?_owned _⟩
    · exact ⟨_, refs?_expr _⟩
    · simp at howned
  obtain ⟨refs, hrefs⟩ := hrefs
  exact ⟨refs, hrefs, balanced.counts value refs hrefs ▸ hcount⟩

/-- A guarded value either has no payload of its own or has an owner. -/
theorem plain_or_mem_of_guarded (hsub : held ⊆ outside) (guarded : store.Guarded cells held value) :
    value.isPlain = true ∧ (∀ cell, value = .variable cell → cell < cells) ∨
      value ∈ store.holds + outside := by
  cases guarded with
  | plain hplain hcell => exact Or.inl ⟨hplain, hcell⟩
  | held hmem => exact Or.inr (Multiset.mem_add.mpr (Or.inr (hsub hmem)))
  | argument _ hlive hmem =>
      exact Or.inr (Multiset.mem_add.mpr (Or.inl (mem_holds_of_live? hlive hmem)))

theorem live_of_guarded (balanced : store.Balanced cells outside) (hsub : held ⊆ outside)
    (guarded : store.Guarded cells held value) (howned : value.isPlain = false) :
    ∃ payload, store.live? value = some payload := by
  rcases plain_or_mem_of_guarded hsub guarded with ⟨hplain, -⟩ | hmem
  · simp [howned] at hplain
  · exact balanced.live_of_mem hmem howned

theorem cell_lt_of_guarded (balanced : store.Balanced cells outside) (hsub : held ⊆ outside)
    {cell : Nat} (guarded : store.Guarded cells held (.variable cell)) : cell < cells := by
  rcases plain_or_mem_of_guarded hsub guarded with ⟨-, hcell⟩ | hmem
  · exact hcell cell rfl
  · exact balanced.known cell hmem

end Balanced

/-- What was guarded stays guarded while the values that guard it are held. -/
theorem Guarded.continues {before after : Store} {cells size : Nat}
    {held outside : Multiset Value} {value : Value}
    (guarded : before.Guarded cells held value) (hcontinues : before.Continues after)
    (hbalanced : after.Balanced size outside) (hsub : held ⊆ outside) (hcells : cells ≤ size) :
    after.Guarded size held value := by
  induction guarded with
  | plain hplain hcell => exact .plain hplain fun cell heq => (hcell cell heq).trans_le hcells
  | held hmem => exact .held hmem
  | @argument index function args value _ hlive hmem ih =>
      -- The application is live later as well, so it still has the same arguments.
      obtain ⟨payload, hafter⟩ := hbalanced.live_of_guarded hsub ih rfl
      have hbefore := hcontinues.live _ _ (made_of_live? hlive) hafter
      have hpayload : payload = .application function args :=
        Option.some.inj (hbefore.symm.trans hlive)
      exact .argument ih (hpayload ▸ hafter) hmem

end Store

/-! ### What cells hold -/

namespace Environment

variable {environment : Environment} {index : Nat}

theorem holds_modify_add {cell : Cell} (hcell : environment.cells[index]? = some cell)
    (change : Cell → Cell) :
    holds { environment with cells := environment.cells.modify index change } + cell.holds =
      environment.holds + (change cell).holds := by
  unfold holds
  rw [Array.toList_modify]
  refine sum_map_modify_add Cell.holds change _ index cell ?_
  rw [Array.getElem?_toList]
  exact hcell

theorem mem_holds_of_value? {value : Value} (hvalue : environment.value? index = some value) :
    value ∈ environment.holds := by
  rw [value?, Option.bind_eq_some_iff] at hvalue
  obtain ⟨cell, hcell, hvalue⟩ := hvalue
  have hmodify := holds_modify_add hcell fun cell => { cell with value := none }
  simp only [Cell.holds, hvalue, add_zero] at hmodify
  rw [← hmodify]
  simp

/-- A cell that is given a value gives up the one it had. -/
theorem holds_assign (hlt : index < environment.cells.size) (value : Value) :
    (environment.assign index value).holds + ((environment.value? index).elim 0 fun old => {old}) =
      value ::ₘ environment.holds := by
  have hcell : environment.cells[index]? = some environment.cells[index] :=
    Array.getElem?_eq_getElem hlt
  have hmodify := holds_modify_add hcell fun cell => { cell with value := some value }
  simp only [value?, hcell, Option.bind_some]
  cases hold : environment.cells[index].value with
  | none =>
      simp only [Cell.holds, hold, add_zero] at hmodify
      simpa [assign, ← Multiset.singleton_add, add_comm] using hmodify
  | some old =>
      simp only [Cell.holds, hold] at hmodify
      simpa [assign, ← Multiset.singleton_add, add_comm] using hmodify

theorem holds_unlist (hlt : index < environment.cells.size) :
    (environment.unlist index).holds + ((environment.value? index).elim 0 fun old => {old}) =
      environment.holds := by
  have hcell : environment.cells[index]? = some environment.cells[index] :=
    Array.getElem?_eq_getElem hlt
  have hmodify := holds_modify_add hcell fun cell => { cell with value := none, listed := false }
  simp only [value?, hcell, Option.bind_some]
  cases hold : environment.cells[index].value with
  | none => simpa [unlist, Cell.holds, hold] using hmodify
  | some old => simpa [unlist, Cell.holds, hold] using hmodify

@[simp]
theorem holds_fetch (environment : Environment) (name : Bytes) :
    (environment.fetch name).2.holds = environment.holds := by
  unfold fetch
  split
  · rfl
  · simp [holds, Cell.holds]

theorem size_le_size_fetch (environment : Environment) (name : Bytes) :
    environment.cells.size ≤ (environment.fetch name).2.cells.size := by
  unfold fetch
  split <;> simp

theorem fetch_lt_size (environment : Environment) (name : Bytes) :
    (environment.fetch name).1 < (environment.fetch name).2.cells.size := by
  unfold fetch
  split
  · next index hfind => exact (Array.findIdx?_eq_some_iff_getElem.mp hfind).1
  · simp

end Environment

end KnightLang
