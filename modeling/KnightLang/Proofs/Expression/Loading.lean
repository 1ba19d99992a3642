import KnightLang.Machine

/-!
What a value in a machine stands for as a written expression. Loading an expression gives a value
that stands for it and for no other.
-/

namespace KnightLang.Machine

mutual

/-- A value stands for an expression: its texts and applications are in the store, and its variables
are the cells that their names stand for. -/
def Stands (machine : Machine) : Tree → Value → Prop
  | .null, value => value = .null
  | .boolean flag, value => value = .boolean flag
  | .number word, value => value = .number word
  | .text contents, value =>
      (∃ text, value = .string (.static text) ∧ text.bytes = contents) ∨
        ∃ index refs, value = .string (.owned index) ∧
          machine.store.text? index = some { bytes := contents, refs }
  | .variable name, value =>
      ∃ cell, value = .variable cell ∧ machine.environment.find? name = some cell
  | .apply function args, value =>
      ∃ index values refs, value = .expr index ∧
        machine.store.node? index = some { function, args := values, refs } ∧
        machine.StandsAll args values

def StandsAll (machine : Machine) : List Tree → List Value → Prop
  | [], values => values = []
  | tree :: trees, values =>
      ∃ value others, values = value :: others ∧ machine.Stands tree value ∧
        machine.StandsAll trees others

end

/-- Everything that was in a machine is still there. -/
structure Grows (before after : Machine) : Prop where
  texts : ∀ index text, before.store.text? index = some text →
    after.store.text? index = some text
  nodes : ∀ index node, before.store.node? index = some node →
    after.store.node? index = some node
  cells : ∀ name cell, before.environment.find? name = some cell →
    after.environment.find? name = some cell

namespace Grows

theorem refl (machine : Machine) : machine.Grows machine :=
  ⟨fun _ _ => id, fun _ _ => id, fun _ _ => id⟩

theorem trans {before middle after : Machine} (first : before.Grows middle)
    (second : middle.Grows after) : before.Grows after where
  texts index text htext := second.texts index text (first.texts index text htext)
  nodes index node hnode := second.nodes index node (first.nodes index node hnode)
  cells name cell hcell := second.cells name cell (first.cells name cell hcell)

end Grows

mutual

theorem Stands.grows {before after : Machine} (hgrows : before.Grows after) (tree : Tree)
    {value : Value} (hstands : before.Stands tree value) : after.Stands tree value := by
  match tree with
  | .null | .boolean _ | .number _ => simpa only [Stands] using hstands
  | .text contents =>
      simp only [Stands] at hstands ⊢
      rcases hstands with hstatic | ⟨index, refs, rfl, htext⟩
      · exact Or.inl hstatic
      · exact Or.inr ⟨index, refs, rfl, hgrows.texts _ _ htext⟩
  | .variable name =>
      simp only [Stands] at hstands ⊢
      obtain ⟨cell, rfl, hcell⟩ := hstands
      exact ⟨cell, rfl, hgrows.cells _ _ hcell⟩
  | .apply function args =>
      simp only [Stands] at hstands ⊢
      obtain ⟨index, values, refs, rfl, hnode, hargs⟩ := hstands
      exact ⟨index, values, refs, rfl, hgrows.nodes _ _ hnode, StandsAll.grows hgrows args hargs⟩

theorem StandsAll.grows {before after : Machine} (hgrows : before.Grows after) (trees : List Tree)
    {values : List Value} (hstands : before.StandsAll trees values) :
    after.StandsAll trees values := by
  match trees with
  | [] => simpa only [StandsAll] using hstands
  | tree :: trees =>
      simp only [StandsAll] at hstands ⊢
      obtain ⟨value, others, rfl, hfirst, hothers⟩ := hstands
      exact ⟨value, others, rfl, Stands.grows hgrows tree hfirst,
        StandsAll.grows hgrows trees hothers⟩

end

/-! ### A value stands for one expression -/

theorem name_eq_of_find? {environment : Environment} {first second : Bytes} {cell : Nat}
    (hfirst : environment.find? first = some cell)
    (hsecond : environment.find? second = some cell) :
    first = second := by
  obtain ⟨hlt, hname, -⟩ := Array.findIdx?_eq_some_iff_getElem.mp hfirst
  obtain ⟨hlt', hname', -⟩ := Array.findIdx?_eq_some_iff_getElem.mp hsecond
  simp only [Bool.and_eq_true, beq_iff_eq] at hname hname'
  exact hname.2.symm.trans hname'.2

mutual

theorem Stands.unique {machine : Machine} (tree : Tree) {other : Tree} {value : Value}
    (hstands : machine.Stands tree value) (hother : machine.Stands other value) : tree = other := by
  match tree with
  | .null | .boolean _ | .number _ =>
      simp only [Stands] at hstands
      subst hstands
      cases other <;> simp_all [Stands]
  | .text contents =>
      simp only [Stands] at hstands
      rcases hstands with ⟨text, rfl, rfl⟩ | ⟨index, refs, rfl, htext⟩
      · cases other <;> simp_all [Stands]
      · cases other <;> simp_all [Stands]
  | .variable name =>
      simp only [Stands] at hstands
      obtain ⟨cell, rfl, hcell⟩ := hstands
      cases other with
      | «variable» other =>
          simp only [Stands, Value.variable.injEq] at hother
          obtain ⟨cell, rfl, hcell'⟩ := hother
          rw [name_eq_of_find? hcell hcell']
      | null | boolean flag | number word | text contents | apply function args =>
          simp [Stands] at hother
  | .apply function args =>
      simp only [Stands] at hstands
      obtain ⟨index, values, refs, rfl, hnode, hargs⟩ := hstands
      cases other with
      | apply function' args' =>
          simp only [Stands, Value.expr.injEq] at hother
          obtain ⟨index, values', refs', rfl, hnode', hargs'⟩ := hother
          rw [hnode, Option.some.injEq, Node.mk.injEq] at hnode'
          obtain ⟨rfl, rfl, -⟩ := hnode'
          rw [StandsAll.unique args hargs hargs']
      | null | boolean flag | number word | text contents | «variable» name =>
          simp [Stands] at hother

theorem StandsAll.unique {machine : Machine} (trees : List Tree) {others : List Tree}
    {values : List Value} (hstands : machine.StandsAll trees values)
    (hothers : machine.StandsAll others values) : trees = others := by
  match trees with
  | [] =>
      simp only [StandsAll] at hstands
      subst hstands
      cases others <;> simp_all [StandsAll]
  | tree :: trees =>
      simp only [StandsAll] at hstands
      obtain ⟨value, rest, rfl, hfirst, hrest⟩ := hstands
      cases others with
      | nil => simp [StandsAll] at hothers
      | cons other others =>
          simp only [StandsAll, List.cons.injEq] at hothers
          obtain ⟨value, rest, ⟨rfl, rfl⟩, hfirst', hrest'⟩ := hothers
          rw [Stands.unique tree hfirst hfirst', StandsAll.unique trees hrest hrest']

end

/-- The applications among the values that stand for expressions are in the store. -/
theorem StandsAll.lt_size {machine : Machine} {trees : List Tree} {values : List Value}
    (hstands : machine.StandsAll trees values) {child : Nat} (hmem : .expr child ∈ values) :
    child < machine.store.nodes.size := by
  induction trees generalizing values with
  | nil =>
      simp only [StandsAll] at hstands
      simp [hstands] at hmem
  | cons tree trees ih =>
      simp only [StandsAll] at hstands
      obtain ⟨value, others, rfl, hfirst, hothers⟩ := hstands
      rcases List.mem_cons.mp hmem with rfl | hmem
      · cases tree with
        | apply function args =>
            simp only [Stands] at hfirst
            obtain ⟨index, values, refs, heq, hnode, -⟩ := hfirst
            cases heq
            exact (Array.getElem?_eq_some_iff.mp hnode).1
        | null | boolean flag | number word | text contents | «variable» name =>
            simp [Stands] at hfirst
      · exact ih hothers hmem

/-! ### Loading -/

theorem grows_pushText (machine : Machine) (text : Text) :
    machine.Grows
      { machine with store := { machine.store with texts := machine.store.texts.push text } } where
  texts index found hfound := by
    have hlt := (Array.getElem?_eq_some_iff.mp hfound).1
    rw [← hfound]
    exact Array.getElem?_push_lt hlt |>.trans (Array.getElem?_eq_getElem hlt).symm
  nodes _ _ := id
  cells _ _ := id

theorem grows_pushNode (machine : Machine) (node : Node) :
    machine.Grows
      { machine with store := { machine.store with nodes := machine.store.nodes.push node } } where
  texts _ _ := id
  nodes index found hfound := by
    have hlt := (Array.getElem?_eq_some_iff.mp hfound).1
    rw [← hfound]
    exact Array.getElem?_push_lt hlt |>.trans (Array.getElem?_eq_getElem hlt).symm
  cells _ _ := id

theorem find?_fetch (environment : Environment) (name : Bytes) :
    (environment.fetch name).2.find? name = some (environment.fetch name).1 := by
  unfold Environment.fetch
  split
  · next index hfind => exact hfind
  · next hfind =>
      unfold Environment.find? at hfind ⊢
      simp [Array.findIdx?_push, hfind]

theorem grows_fetch (machine : Machine) (name : Bytes) :
    machine.Grows { machine with environment := (machine.environment.fetch name).2 } where
  texts _ _ := id
  nodes _ _ := id
  cells other cell hcell := by
    unfold Environment.fetch
    split
    · exact hcell
    · unfold Environment.find? at hcell ⊢
      simp [Array.findIdx?_push, hcell]

mutual

theorem stands_load (tree : Tree) (machine : Machine) :
    ∃ value after, tree.load machine = .ok value after ∧ machine.Grows after ∧
      after.Stands tree value := by
  match tree with
  | .null => exact ⟨.null, machine, rfl, .refl machine, by simp only [Stands]⟩
  | .boolean flag => exact ⟨.boolean flag, machine, rfl, .refl machine, by simp only [Stands]⟩
  | .number word => exact ⟨.number word, machine, rfl, .refl machine, by simp only [Stands]⟩
  | .text contents =>
      cases hstatic : StaticText.find? contents with
      | some text =>
          refine ⟨.string (.static text), machine, ?_, .refl machine, ?_⟩
          · simp only [Tree.load, Store.intern, hstatic]
            rfl
          · simp only [Stands]
            exact Or.inl ⟨text, rfl, by simpa using List.find?_some hstatic⟩
      | none =>
          refine ⟨.string (.owned machine.store.texts.size), _, ?_,
            machine.grows_pushText { bytes := contents, refs := 1 }, ?_⟩
          · simp only [Tree.load, Store.intern, hstatic]
            rfl
          · simp only [Stands]
            exact Or.inr ⟨_, 1, rfl, Array.getElem?_push_size⟩
  | .variable name =>
      refine ⟨.variable (machine.environment.fetch name).1, _, rfl, machine.grows_fetch name, ?_⟩
      simp only [Stands]
      exact ⟨_, rfl, find?_fetch machine.environment name⟩
  | .apply function args =>
      obtain ⟨values, middle, hload, hgrows, hstands⟩ := stands_loadAll args machine
      have hpush := middle.grows_pushNode { function, args := values, refs := 1 }
      refine ⟨.expr middle.store.nodes.size, _, ?_, hgrows.trans hpush, ?_⟩
      · simp only [Tree.load, bind, EStateM.bind, hload]
        rfl
      · simp only [Stands]
        exact ⟨_, values, 1, rfl, Array.getElem?_push_size, StandsAll.grows hpush args hstands⟩

theorem stands_loadAll (trees : List Tree) (machine : Machine) :
    ∃ values after, Tree.loadAll trees machine = .ok values after ∧ machine.Grows after ∧
      after.StandsAll trees values := by
  match trees with
  | [] => exact ⟨[], machine, rfl, .refl machine, by simp only [StandsAll]⟩
  | tree :: trees =>
      obtain ⟨value, middle, hfirst, hgrows, hstands⟩ := stands_load tree machine
      obtain ⟨values, after, hrest, hgrows', hstands'⟩ := stands_loadAll trees middle
      refine ⟨value :: values, after, ?_, hgrows.trans hgrows', ?_⟩
      · simp only [Tree.loadAll, bind, EStateM.bind, hfirst, hrest]
        rfl
      · simp only [StandsAll]
        exact ⟨value, values, rfl, Stands.grows hgrows' tree hstands, hstands'⟩

end

end KnightLang.Machine
