import KnightLang.Proofs.Lockstep.Actions
import KnightLang.Proofs.Renaming
import Mathlib.Data.List.GetD
import Mathlib.Order.WellFounded

/-!
Two machines that have the same payloads under different indices. What can be read from one of them
is what can be read from the other, and they stay alike when the same is added to both.
-/

namespace KnightLang

namespace Renaming

def application (rename : Renaming) (node : Node) : Node :=
  { node with args := node.args.map rename.value }

def cell (rename : Renaming) (cell : Cell) : Cell :=
  { cell with value := cell.value.map rename.value }

variable {rename : Renaming}

@[simp]
theorem isLiteral_value (value : Value) : (rename.value value).isLiteral = value.isLiteral := by
  cases value <;> rfl

end Renaming

theorem Store.dumpArgs_map (dump : Value → Bytes → Bytes) (change : Value → Value)
    (values : List Value) (tail : Bytes) :
    dumpArgs dump (values.map change) tail =
      dumpArgs (fun value => dump (change value)) values tail := by
  induction values with
  | nil => rfl
  | cons value rest ih => simp only [List.map_cons, dumpArgs, ih]

namespace Machine

/-- The payloads of one machine under other indices, and nothing else different. What is made next
has corresponding indices as well. -/
structure Renamed (rename : Renaming) (first second : Machine) : Prop where
  text? : ∀ index, second.store.text? (rename.text index) = first.store.text? index
  node? : ∀ index, second.store.node? (rename.node index) =
    (first.store.node? index).map rename.application
  next_text : ∀ count,
    rename.text (first.store.texts.size + count) = second.store.texts.size + count
  next_node : ∀ count,
    rename.node (first.store.nodes.size + count) = second.store.nodes.size + count
  older : ∀ index node child, first.store.node? index = some node → .expr child ∈ node.args →
    child < index
  cells : second.environment.cells = first.environment.cells.map rename.cell
  aside : second = { first with store := second.store, environment := second.environment }

namespace Renamed

variable {rename : Renaming} {first second : Machine}

/-! ### What is read from a machine -/

theorem world_eq (renamed : Renamed rename first second) : second.world = first.world := by
  rw [renamed.aside]

theorem bytes_eq (renamed : Renamed rename first second) (text : TextRef) :
    second.store.bytes (rename.textRef text) = first.store.bytes text := by
  cases text with
  | static text => rfl
  | owned index => simp only [Renaming.textRef, Store.bytes, renamed.text? index]

theorem args_eq (renamed : Renamed rename first second) (index : Nat) :
    second.store.args (rename.node index) = (first.store.args index).map rename.value := by
  unfold Store.args
  rw [renamed.node? index]
  cases first.store.node? index <;> rfl

theorem arg_eq (renamed : Renamed rename first second) (index position : Nat) :
    second.store.arg (rename.node index) position =
      rename.value (first.store.arg index position) := by
  unfold Store.arg
  rw [renamed.node? index]
  cases first.store.node? index with
  | none => rfl
  | some node => exact List.getD_map node.args .null rename.value

theorem literalBoolean_eq (renamed : Renamed rename first second) (value : Value) :
    second.store.literalBoolean (rename.value value) = first.store.literalBoolean value := by
  cases value with
  | string text => exact congrArg (fun bytes => !bytes.isEmpty) (renamed.bytes_eq text)
  | null | boolean flag | number word | «variable» cell | expr index => rfl

theorem literalNumber_eq (renamed : Renamed rename first second) (value : Value) :
    second.store.literalNumber (rename.value value) = first.store.literalNumber value := by
  cases value with
  | string text => exact congrArg Decimal.leadingNumber (renamed.bytes_eq text)
  | null | boolean flag | number word | «variable» cell | expr index => rfl

theorem equal_eq (renamed : Renamed rename first second) (left right : Value) :
    second.store.equal (rename.value left) (rename.value right) =
      first.store.equal left right := by
  have hsame : (rename.value left == rename.value right) = (left == right) :=
    Bool.eq_iff_iff.mpr (by simp [rename.value_injective.eq_iff])
  cases left with
  | string text =>
      cases right with
      | string other =>
          have htext : (rename.textRef text == rename.textRef other) = (text == other) := by
            have hinjective : rename.value (.string text) = rename.value (.string other) ↔
                Value.string text = .string other := rename.value_injective.eq_iff
            exact Bool.eq_iff_iff.mpr (by simpa [Renaming.value] using hinjective)
          simp only [Renaming.value, Store.equal, htext, renamed.bytes_eq]
      | null | boolean flag | number word | «variable» cell | expr index => exact hsame
  | null | boolean flag | number word | «variable» cell | expr index => exact hsame

theorem value?_eq (renamed : Renamed rename first second) (cell : Nat) :
    second.environment.value? cell = (first.environment.value? cell).map rename.value := by
  unfold Environment.value?
  rw [renamed.cells, Array.getElem?_map]
  cases first.environment.cells[cell]? <;> rfl

theorem name_eq (renamed : Renamed rename first second) :
    second.environment.name = first.environment.name := by
  funext cell
  unfold Environment.name
  rw [renamed.cells, Array.getElem?_map]
  cases first.environment.cells[cell]? <;> rfl

theorem find?_eq (renamed : Renamed rename first second) (name : Bytes) :
    second.environment.find? name = first.environment.find? name := by
  unfold Environment.find?
  rw [renamed.cells, Array.findIdx?_map]
  rfl

theorem size_le (renamed : Renamed rename first second) :
    first.store.nodes.size ≤ second.store.nodes.size := by
  have hnext := renamed.next_node 0
  rw [Nat.add_zero, Nat.add_zero] at hnext
  rw [← hnext]
  exact rename.node_strictMono.le_apply

/-! ### What is changed in a machine -/

theorem text_eq_size_iff (renamed : Renamed rename first second) (index : Nat) :
    rename.text index = second.store.texts.size ↔ index = first.store.texts.size := by
  have hnext := renamed.next_text 0
  rw [Nat.add_zero, Nat.add_zero] at hnext
  rw [← hnext]
  exact rename.text_injective.eq_iff

theorem node_eq_size_iff (renamed : Renamed rename first second) (index : Nat) :
    rename.node index = second.store.nodes.size ↔ index = first.store.nodes.size := by
  have hnext := renamed.next_node 0
  rw [Nat.add_zero, Nat.add_zero] at hnext
  rw [← hnext]
  exact rename.node_strictMono.injective.eq_iff

theorem pushText (renamed : Renamed rename first second) (text : Text) :
    Renamed rename
      { first with store := { first.store with texts := first.store.texts.push text } }
      { second with store := { second.store with texts := second.store.texts.push text } } where
  text? index := by
    rw [Store.text?_push, Store.text?_push, renamed.text? index]
    simp only [renamed.text_eq_size_iff index]
  node? := renamed.node?
  next_text count := by
    simp only [Array.size_push, Nat.add_assoc, Nat.add_comm 1]
    exact renamed.next_text (count + 1)
  next_node := renamed.next_node
  older := renamed.older
  cells := renamed.cells
  aside := by rw [renamed.aside]

theorem pushNode (renamed : Renamed rename first second) {node : Node}
    (holder : ∀ child, .expr child ∈ node.args → child < first.store.nodes.size) :
    Renamed rename
      { first with store := { first.store with nodes := first.store.nodes.push node } }
      { second with
        store := { second.store with
          nodes := second.store.nodes.push (rename.application node) } } where
  text? := renamed.text?
  node? index := by
    rw [Store.node?_push, Store.node?_push, renamed.node? index]
    simp only [renamed.node_eq_size_iff index]
    split_ifs <;> rfl
  next_text := renamed.next_text
  next_node count := by
    simp only [Array.size_push, Nat.add_assoc, Nat.add_comm 1]
    exact renamed.next_node (count + 1)
  older index found child hfound hmem := by
    rw [Store.node?_push] at hfound
    split_ifs at hfound with hindex
    · cases hfound
      exact hindex ▸ holder child hmem
    · exact renamed.older index found child hfound hmem
  cells := renamed.cells
  aside := by rw [renamed.aside]

theorem assign (renamed : Renamed rename first second) (cell : Nat) (value : Value) :
    Renamed rename { first with environment := first.environment.assign cell value }
      { second with environment := second.environment.assign cell (rename.value value) } where
  text? := renamed.text?
  node? := renamed.node?
  next_text := renamed.next_text
  next_node := renamed.next_node
  older := renamed.older
  cells := by
    refine Array.ext_getElem? fun index => ?_
    simp only [Environment.assign, renamed.cells, Array.getElem?_modify, Array.getElem?_map]
    split_ifs
    · cases first.environment.cells[index]? <;> rfl
    · rfl
  aside := by rw [renamed.aside]

theorem fetch (renamed : Renamed rename first second) (name : Bytes) :
    (second.environment.fetch name).1 = (first.environment.fetch name).1 ∧
      Renamed rename { first with environment := (first.environment.fetch name).2 }
        { second with environment := (second.environment.fetch name).2 } := by
  have hfind := renamed.find?_eq name
  have hsize : second.environment.cells.size = first.environment.cells.size := by
    rw [renamed.cells, Array.size_map]
  have hcells : (second.environment.fetch name).2.cells =
      (first.environment.fetch name).2.cells.map rename.cell := by
    unfold Environment.fetch
    rw [hfind]
    cases first.environment.find? name with
    | some cell => exact renamed.cells
    | none =>
        simp only [Array.map_push, renamed.cells]
        rfl
  refine ⟨?_, ?_⟩
  · unfold Environment.fetch
    rw [hfind]
    cases first.environment.find? name with
    | some cell => rfl
    | none => exact hsize
  · exact
      { text? := renamed.text?
        node? := renamed.node?
        next_text := renamed.next_text
        next_node := renamed.next_node
        older := renamed.older
        cells := hcells
        aside := by rw [renamed.aside] }

/-- What neither store nor cells take part in may change alike. -/
theorem update {first' second' : Machine} (renamed : Renamed rename first second)
    (hstore : first'.store = first.store) (hcells : first'.environment = first.environment)
    (hsecond : second' =
      { first' with store := second.store, environment := second.environment }) :
    Renamed rename first' second' where
  text? := by rw [hsecond, hstore]; exact renamed.text?
  node? := by rw [hsecond, hstore]; exact renamed.node?
  next_text := by rw [hsecond, hstore]; exact renamed.next_text
  next_node := by rw [hsecond, hstore]; exact renamed.next_node
  older := by rw [hstore]; exact renamed.older
  cells := by rw [hsecond, hcells]; exact renamed.cells
  aside := by rw [hsecond]

/-! ### Diagnostic texts -/

theorem dumpWithin_of_ne_expr (renamed : Renamed rename first second) (name : Nat → Bytes)
    (bound more : Nat) {value : Value} (hvalue : ∀ index, value ≠ .expr index) (tail : Bytes) :
    second.store.dumpWithin name more (rename.value value) tail =
      first.store.dumpWithin name bound value tail := by
  cases value with
  | expr index => exact absurd rfl (hvalue index)
  | string text => simp only [Renaming.value, Store.dumpWithin, renamed.bytes_eq]
  | null | boolean flag | number word | «variable» cell =>
      simp only [Renaming.value, Store.dumpWithin]

/-- The text of an application is the same however many applications may nest, if they are not
fewer than there are. -/
theorem dumpWithin_expr (renamed : Renamed rename first second) (name : Nat → Bytes) {index : Nat}
    {bound more : Nat} (hbound : index < first.store.nodes.size → index < bound ∧ index < more)
    (tail : Bytes) :
    second.store.dumpWithin name more (.expr (rename.node index)) tail =
      first.store.dumpWithin name bound (.expr index) tail := by
  induction index using Nat.strongRecOn generalizing bound more tail with
  | _ index ih =>
      have hnode := renamed.node? index
      cases hfound : first.store.node? index with
      | none =>
          rw [hfound, Option.map_none] at hnode
          cases bound <;> cases more <;> simp only [Store.dumpWithin, hnode, hfound]
      | some node =>
          rw [hfound, Option.map_some] at hnode
          obtain ⟨hlt, hlt'⟩ := hbound (Array.getElem?_eq_some_iff.mp hfound).1
          obtain ⟨bound, rfl⟩ := Nat.exists_eq_succ_of_ne_zero (Nat.ne_zero_of_lt hlt)
          obtain ⟨more, rfl⟩ := Nat.exists_eq_succ_of_ne_zero (Nat.ne_zero_of_lt hlt')
          have hargs (tail : Bytes) :
              Store.dumpArgs (second.store.dumpWithin name more) (rename.application node).args
                tail = Store.dumpArgs (first.store.dumpWithin name bound) node.args tail := by
            rw [Renaming.application, Store.dumpArgs_map]
            refine Store.dumpArgs_congr (fun value hmem tail => ?_) tail
            cases value with
            | expr child =>
                have hchild := renamed.older index node child hfound hmem
                exact ih child hchild (fun _ => ⟨by omega, by omega⟩) tail
            | null | boolean flag | number word | string text | «variable» cell =>
                exact renamed.dumpWithin_of_ne_expr name bound more (by simp) tail
          simp only [Store.dumpWithin, hnode, hfound, hargs]
          rfl

theorem dump_eq (renamed : Renamed rename first second) (value : Value) :
    second.store.dump second.environment.name (rename.value value) =
      first.store.dump first.environment.name value := by
  rw [renamed.name_eq]
  cases value with
  | expr index =>
      exact renamed.dumpWithin_expr _ (fun hlt => ⟨hlt, hlt.trans_le renamed.size_le⟩) []
  | null | boolean flag | number word | string text | «variable» cell =>
      exact renamed.dumpWithin_of_ne_expr _ _ _ (by simp) []

end Renamed

end Machine

end KnightLang
