import KnightLang.Proofs.Expression.Tokens
import KnightLang.Proofs.Lockstep
import KnightLang.Proofs.Variables

/-!
What a parse changes. It makes the cells that are missing for the variables it meets and, if it
succeeds, the payloads of the expression; whatever was there before stays as it was.
-/

namespace KnightLang

/-! ### Cells for names -/

/-- A cell as it is made. -/
def Cell.unassigned (name : Bytes) : Cell := { name }

namespace Environment

/-- The table after every one of the names was looked up, in order. -/
def fetchAll (environment : Environment) (names : List Bytes) : Environment :=
  names.foldl (fun environment name => (environment.fetch name).2) environment

variable {environment : Environment} {name other : Bytes} {names : List Bytes} {cell : Nat}

@[simp]
theorem fetchAll_cons (environment : Environment) (name : Bytes) (names : List Bytes) :
    environment.fetchAll (name :: names) = (environment.fetch name).2.fetchAll names := rfl

@[simp]
theorem fetchAll_append (environment : Environment) (first second : List Bytes) :
    environment.fetchAll (first ++ second) = (environment.fetchAll first).fetchAll second :=
  List.foldl_append

theorem fetch_of_none (hfind : environment.find? name = none) :
    environment.fetch name =
      (environment.cells.size, { cells := environment.cells.push (.unassigned name) }) := by
  simp only [fetch, hfind, Cell.unassigned]

theorem find?_push (environment : Environment) (name other : Bytes) :
    find? { cells := environment.cells.push (.unassigned name) } other =
      (environment.find? other).or
        (if name = other then some environment.cells.size else none) := by
  simp only [find?, Cell.unassigned, Array.findIdx?_push, Bool.true_and, beq_iff_eq]

theorem find?_fetch_of_some (hfind : environment.find? other = some cell) :
    (environment.fetch name).2.find? other = some cell :=
  (extends_fetch environment name).find? hfind

theorem find?_fetchAll_of_some (hfind : environment.find? name = some cell) :
    (environment.fetchAll names).find? name = some cell := by
  induction names generalizing environment with
  | nil => exact hfind
  | cons other names ih => exact ih (find?_fetch_of_some hfind)

theorem exists_find?_fetchAll (hmem : name ∈ names) :
    ∃ cell, (environment.fetchAll names).find? name = some cell := by
  induction names generalizing environment with
  | nil => cases hmem
  | cons other names ih =>
      rw [fetchAll_cons]
      rcases List.mem_cons.mp hmem with rfl | hmem
      · exact ⟨_, find?_fetchAll_of_some (Machine.find?_fetch environment name)⟩
      · exact ih hmem

/-- Names that have their cells need no more of them. -/
theorem fetchAll_of_known (hknown : ∀ name ∈ names, environment.find? name ≠ none) :
    environment.fetchAll names = environment := by
  induction names with
  | nil => rfl
  | cons name names ih =>
      obtain ⟨cell, hfind⟩ := Option.ne_none_iff_exists'.mp (hknown name List.mem_cons_self)
      rw [fetchAll_cons, fetch_of_find? hfind]
      exact ih fun other hmem => hknown other (List.mem_cons_of_mem name hmem)

@[simp]
theorem fetchAll_fetchAll (environment : Environment) (names : List Bytes) :
    (environment.fetchAll names).fetchAll names = environment.fetchAll names := by
  refine fetchAll_of_known fun name hmem => ?_
  obtain ⟨cell, hfind⟩ := exists_find?_fetchAll hmem
  rw [hfind]
  exact Option.some_ne_none cell

/-- The table grows by one unassigned cell for each name that had none, and by no other. -/
structure Gains (before after : Environment) (names : List Bytes) : Prop where
  cells : ∃ fresh : List Bytes,
    after.cells = before.cells ++ (fresh.map Cell.unassigned).toArray ∧ fresh.Nodup ∧
    ∀ name, name ∈ fresh ↔ name ∈ names ∧ before.find? name = none

theorem gains_fetchAll (environment : Environment) (names : List Bytes) :
    environment.Gains (environment.fetchAll names) names := by
  induction names generalizing environment with
  | nil => exact ⟨[], by simp [fetchAll]⟩
  | cons name names ih =>
      obtain ⟨fresh, hcells, hnodup, hmem⟩ := (ih (environment.fetch name).2).cells
      rw [fetchAll_cons]
      cases hfind : environment.find? name with
      | some cell =>
          rw [fetch_of_find? hfind] at hcells hmem ⊢
          refine ⟨fresh, hcells, hnodup, fun other => ?_⟩
          rw [hmem, List.mem_cons]
          constructor
          · exact fun ⟨hother, hnone⟩ => ⟨Or.inr hother, hnone⟩
          · rintro ⟨rfl | hother, hnone⟩
            · rw [hfind] at hnone
              cases hnone
            · exact ⟨hother, hnone⟩
      | none =>
          rw [fetch_of_none hfind] at hcells hmem ⊢
          refine ⟨name :: fresh, ?_, ?_, fun other => ?_⟩
          · rw [hcells, Array.push_eq_append, Array.append_assoc]
            simp
          · refine List.nodup_cons.mpr ⟨fun hname => ?_, hnodup⟩
            have hnone := ((hmem name).mp hname).2
            rw [find?_push, hfind, if_pos rfl] at hnone
            cases hnone
          · rw [List.mem_cons, List.mem_cons, hmem, find?_push]
            by_cases hother : name = other
            · subst hother
              simp [hfind]
            · simp [hother, Ne.symm hother]

end Environment

/-! ### Payloads for expressions -/

mutual

/-- A value for an expression and the store with its payloads, given the cells of its variables. -/
def Tree.place (cellOf : Bytes → Nat) : Tree → Store → Value × Store
  | .null, store => (.null, store)
  | .boolean flag, store => (.boolean flag, store)
  | .number word, store => (.number word, store)
  | .text contents, store =>
      match StaticText.find? contents with
      | some shared => (.string (.static shared), store)
      | none =>
          (.string (.owned store.texts.size),
            { store with texts := store.texts.push { bytes := contents, refs := 1 } })
  | .variable name, store => (.variable (cellOf name), store)
  | .apply function args, store =>
      let (values, store) := Tree.placeAll cellOf args store
      (.expr store.nodes.size,
        { store with nodes := store.nodes.push { function, args := values, refs := 1 } })

def Tree.placeAll (cellOf : Bytes → Nat) : List Tree → Store → List Value × Store
  | [], store => ([], store)
  | tree :: trees, store =>
      let (value, store) := tree.place cellOf store
      let (values, store) := Tree.placeAll cellOf trees store
      (value :: values, store)

end

namespace Machine

/-- A function gives the cells that the names will stand for. -/
def CellsOf (machine : Machine) (names : List Bytes) (cellOf : Bytes → Nat) : Prop :=
  ∀ name ∈ names, (machine.environment.fetchAll names).find? name = some (cellOf name)

variable {machine : Machine} {cellOf : Bytes → Nat}

theorem CellsOf.left {first second : List Bytes}
    (hcells : machine.CellsOf (first ++ second) cellOf) : machine.CellsOf first cellOf := by
  intro name hmem
  obtain ⟨cell, hfind⟩ : ∃ cell, (machine.environment.fetchAll first).find? name = some cell :=
    Environment.exists_find?_fetchAll hmem
  have hlater := hcells name (List.mem_append_left second hmem)
  rw [Environment.fetchAll_append, Environment.find?_fetchAll_of_some hfind] at hlater
  rw [hfind, Option.some.inj hlater]

theorem CellsOf.right {first second : List Bytes} (store : Store)
    (hcells : machine.CellsOf (first ++ second) cellOf) :
    CellsOf { machine with store, environment := machine.environment.fetchAll first } second
      cellOf := by
  intro name hmem
  have hlater := hcells name (List.mem_append_right first hmem)
  rwa [Environment.fetchAll_append] at hlater

mutual

theorem load_eq (tree : Tree) (machine : Machine) (hcells : machine.CellsOf tree.names cellOf) :
    tree.load machine = .ok (tree.place cellOf machine.store).1
      { machine with
        store := (tree.place cellOf machine.store).2
        environment := machine.environment.fetchAll tree.names } := by
  match tree with
  | .null | .boolean _ | .number _ => rfl
  | .text contents =>
      cases hstatic : StaticText.find? contents with
      | some text =>
          simp only [Tree.load, Store.intern, Tree.place, hstatic]
          rfl
      | none =>
          simp only [Tree.load, Store.intern, Tree.place, hstatic]
          rfl
  | .variable name =>
      have hcell := hcells name (List.mem_singleton_self name)
      have hfetch : (machine.environment.fetch name).1 = cellOf name := by
        rw [Tree.names, Environment.fetchAll_cons] at hcell
        exact Option.some.inj ((find?_fetch machine.environment name).symm.trans hcell)
      simp only [Tree.load, Tree.place, ← hfetch]
      rfl
  | .apply function args =>
      have hload := loadAll_eq args machine hcells
      simp only [Tree.load, bind, EStateM.bind, hload]
      rfl

theorem loadAll_eq (trees : List Tree) (machine : Machine)
    (hcells : machine.CellsOf (Tree.namesAll trees) cellOf) :
    Tree.loadAll trees machine = .ok (Tree.placeAll cellOf trees machine.store).1
      { machine with
        store := (Tree.placeAll cellOf trees machine.store).2
        environment := machine.environment.fetchAll (Tree.namesAll trees) } := by
  match trees with
  | [] => rfl
  | tree :: trees =>
      have hfirst := load_eq tree machine hcells.left
      have hothers := loadAll_eq trees _ (hcells.right (tree.place cellOf machine.store).2)
      rw [← Environment.fetchAll_append] at hothers
      simp only [Tree.loadAll, bind, EStateM.bind, hfirst, hothers]
      rfl

end

/-- The cells that the names will stand for. -/
def cellFor (machine : Machine) (names : List Bytes) (name : Bytes) : Nat :=
  ((machine.environment.fetchAll names).find? name).getD 0

theorem cellsOf_cellFor (machine : Machine) (names : List Bytes) :
    machine.CellsOf names (machine.cellFor names) := by
  intro name hmem
  obtain ⟨cell, hfind⟩ : ∃ cell, (machine.environment.fetchAll names).find? name = some cell :=
    Environment.exists_find?_fetchAll hmem
  rw [cellFor, hfind, Option.getD_some]

/-- Nothing but new payloads and unassigned cells for some names has come to a machine. -/
structure AddsOnly (before after : Machine) (names : List Bytes) : Prop where
  aside : after = { before with store := after.store, environment := after.environment }
  texts : ∀ index text, before.store.text? index = some text →
    after.store.text? index = some text
  nodes : ∀ index node, before.store.node? index = some node →
    after.store.node? index = some node
  cells : before.environment.Gains after.environment names

theorem addsOnly_fetchAll (machine : Machine) (names : List Bytes) :
    machine.AddsOnly { machine with environment := machine.environment.fetchAll names } names where
  aside := rfl
  texts _ _ := id
  nodes _ _ := id
  cells := machine.environment.gains_fetchAll names

theorem addsOnly_load (tree : Tree) (machine : Machine) :
    machine.AddsOnly
      { machine with
        store := (tree.place (machine.cellFor tree.names) machine.store).2
        environment := machine.environment.fetchAll tree.names } tree.names := by
  obtain ⟨value, after, hload, hgrows, -⟩ := stands_load tree machine
  rw [load_eq tree machine (machine.cellsOf_cellFor tree.names)] at hload
  cases hload
  exact
    { aside := rfl
      texts := hgrows.texts
      nodes := hgrows.nodes
      cells := machine.environment.gains_fetchAll tree.names }

end Machine

/-! ### Parsing in a machine -/

namespace Run

variable {machine : Machine} {source : Source} {label : Bytes}

theorem forM_fetch_eq (names : List Bytes) (machine : Machine) :
    (names.forM fun name => do let _ ← fetch name) machine =
      .ok ⟨⟩ { machine with environment := machine.environment.fetchAll names } := by
  induction names generalizing machine with
  | nil => rfl
  | cons name names ih =>
      exact (bind_ok rfl).trans (ih _)

theorem parseFrom_eq_ok {tree : Tree} {scanner : Scanner} {cellOf : Bytes → Nat}
    (hparse : (machine.grammar label source.failure).parse source.unread = .ok tree scanner)
    (hcells : machine.CellsOf tree.names cellOf) :
    parseFrom source label machine =
      .ok (.ok (tree.place cellOf machine.store).1, { source with unread := scanner.unread })
        { machine with
          store := (tree.place cellOf machine.store).2
          environment := machine.environment.fetchAll tree.names } := by
  unfold parseFrom
  refine (bind_ok rfl).trans ?_
  simp only [hparse]
  exact (bind_ok (Machine.load_eq tree machine hcells)).trans rfl

theorem parseFrom_eq_error {error : Error} {scanner : Scanner}
    (hparse : (machine.grammar label source.failure).parse source.unread = .error error scanner) :
    parseFrom source label machine =
      .ok (.error error, { source with unread := scanner.unread })
        { machine with environment := machine.environment.fetchAll scanner.names.reverse } := by
  unfold parseFrom
  refine (bind_ok rfl).trans ?_
  simp only [hparse]
  exact (bind_ok (forM_fetch_eq scanner.names.reverse machine)).trans rfl

/-- A parse reads whole tokens up to the end of the expression, or up to where it fails. It makes
one unassigned cell for each variable among these tokens that has none; for the rest, it adds the
payloads of the expression, if there is one, and changes nothing. -/
def AddsTokens (machine : Machine) (source : Source) (label : Bytes) : Prop :=
  ∃ result rest after word tail names,
    parseFrom source label machine = .ok (result, rest) after ∧
    source.unread = word ++ tail ∧ Tokens machine.functions tail word names ∧
    machine.AddsOnly after names ∧
    match result with
    | .ok _ => rest.unread = tail
    | .error error => after.store = machine.store ∧
        Halts machine.functions (source.failure ≠ none) (error.kind = .depth) tail

theorem parseFrom_addsTokens (machine : Machine) (source : Source) (label : Bytes) :
    AddsTokens machine source label := by
  have hnotices : Scan.Notices _ Tree.names { unread := source.unread }
      ((machine.grammar label source.failure).parse source.unread) := Scan.expression_notices _ _
  cases hparse : (machine.grammar label source.failure).parse source.unread with
  | ok tree scanner =>
      rw [hparse] at hnotices
      obtain ⟨word, hunread, htokens, -⟩ := hnotices
      exact ⟨_, _, _, word, _, tree.names,
        parseFrom_eq_ok hparse (machine.cellsOf_cellFor tree.names), hunread, htokens,
        machine.addsOnly_load tree, rfl⟩
  | error error scanner =>
      rw [hparse] at hnotices
      obtain ⟨names, tail, ⟨word, hunread, htokens, hnames⟩, hhalts⟩ := hnotices
      have hmet : scanner.names.reverse = names := by
        rw [hnames, List.append_nil, List.reverse_reverse]
      exact ⟨_, _, _, word, tail, names, parseFrom_eq_error hparse, hunread, htokens,
        hmet ▸ machine.addsOnly_fetchAll scanner.names.reverse, rfl, hhalts⟩

end Run

end KnightLang
