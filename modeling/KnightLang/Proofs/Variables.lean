import KnightLang.Proofs.Expression.Loading
import KnightLang.Proofs.Steps.Evaluation

/-!
One cell for each name. The table lists every cell under its own name, which is an identifier, and
evaluation only adds cells to it; so a variable in a source, a name that is assigned to and a name
that VALUE looks up all stand for the same cell.
-/

namespace KnightLang

/-! ### The table of variables -/

/-- Every cell has the name of an identifier, and the table gives it for that name. -/
structure Environment.Tabled (environment : Environment) : Prop where
  identifier : ∀ (index : Nat) (cell : Cell), environment.cells[index]? = some cell →
    cell.name.isIdentifier = true
  key : ∀ (index : Nat) (cell : Cell), environment.cells[index]? = some cell →
    environment.find? cell.name = some index

/-- Every cell is still there under its name, and has a value if it had one. -/
def Environment.Extends (before after : Environment) : Prop :=
  ∀ (index : Nat) (cell : Cell), before.cells[index]? = some cell →
    ∃ later : Cell, after.cells[index]? = some later ∧ later.name = cell.name ∧
      later.listed = cell.listed ∧ (cell.value.isSome = true → later.value.isSome = true)

namespace Environment

variable {environment before after : Environment} {name : Bytes} {cell : Nat}

instance : IsPreorder Environment Extends where
  refl _ _ cell hcell := ⟨cell, hcell, rfl, rfl, id⟩
  trans before middle after first second := by
    intro index cell hcell
    obtain ⟨between, hbetween, hname, hlisted, hvalue⟩ := first index cell hcell
    obtain ⟨later, hlater, hname', hlisted', hvalue'⟩ := second index between hbetween
    refine ⟨later, hlater, hname'.trans hname, hlisted'.trans hlisted, ?_⟩
    exact fun hsome => hvalue' (hvalue hsome)

/-- What a name stands for does not change any more. -/
theorem Extends.find? (hextends : before.Extends after) (hfind : before.find? name = some cell) :
    after.find? name = some cell := by
  have hsame (index : Nat) (hlt : index < before.cells.size) :
      ∃ hlater : index < after.cells.size,
        (after.cells[index].listed && after.cells[index].name == name) =
          (before.cells[index].listed && before.cells[index].name == name) := by
    obtain ⟨later, hlater, hname, hlisted, -⟩ :=
      hextends index _ (Array.getElem?_eq_getElem hlt)
    obtain ⟨hsize, rfl⟩ := Array.getElem?_eq_some_iff.mp hlater
    exact ⟨hsize, by rw [hname, hlisted]⟩
  unfold Environment.find? at hfind ⊢
  rw [Array.findIdx?_eq_some_iff_getElem] at hfind ⊢
  obtain ⟨hlt, hfound, hearlier⟩ := hfind
  obtain ⟨hlater, hmatch⟩ := hsame cell hlt
  refine ⟨hlater, hmatch.trans hfound, fun index hindex => ?_⟩
  obtain ⟨hsize, hother⟩ := hsame index (hindex.trans hlt)
  rw [hother]
  exact hearlier index hindex

theorem tabled_empty : Tabled {} where
  identifier _ _ hcell := by simp at hcell
  key _ _ hcell := by simp at hcell

theorem Tabled.nodup (htabled : environment.Tabled) :
    (environment.cells.toList.map Cell.name).Nodup := by
  rw [List.nodup_iff_getElem?_ne_getElem?]
  intro first second hlt hsize heq
  rw [List.length_map, Array.length_toList] at hsize
  simp only [List.getElem?_map, Array.getElem?_toList,
    Array.getElem?_eq_getElem hsize, Array.getElem?_eq_getElem (hlt.trans hsize),
    Option.map_some, Option.some.injEq] at heq
  have hfirst := htabled.key first _ (Array.getElem?_eq_getElem (hlt.trans hsize))
  have hsecond := htabled.key second _ (Array.getElem?_eq_getElem hsize)
  rw [heq, hsecond, Option.some.injEq] at hfirst
  omega

theorem Tabled.find?_eq_none (htabled : environment.Tabled) (hname : name.isIdentifier = false) :
    environment.find? name = none := by
  rw [Option.eq_none_iff_forall_ne_some]
  intro cell hfind
  unfold Environment.find? at hfind
  rw [Array.findIdx?_eq_some_iff_getElem] at hfind
  obtain ⟨hlt, hfound, -⟩ := hfind
  obtain ⟨-, hequal⟩ := Bool.and_eq_true_iff.mp hfound
  have hidentifier := htabled.identifier cell _ (Array.getElem?_eq_getElem hlt)
  rw [eq_of_beq hequal, hname] at hidentifier
  exact Bool.false_ne_true hidentifier

/-! ### What a step does to the table -/

theorem extends_fetch (environment : Environment) (name : Bytes) :
    environment.Extends (environment.fetch name).2 := by
  intro index cell hcell
  unfold fetch
  cases environment.find? name with
  | some found => exact ⟨cell, hcell, rfl, rfl, id⟩
  | none =>
      have hlt : index < environment.cells.size := (Array.getElem?_eq_some_iff.mp hcell).1
      refine ⟨cell, ?_, rfl, rfl, id⟩
      rw [Array.getElem?_push, if_neg hlt.ne]
      exact hcell

theorem extends_assign (environment : Environment) (cell : Nat) (value : Value) :
    environment.Extends (environment.assign cell value) := by
  intro index found hfound
  unfold assign
  rw [Array.getElem?_modify]
  by_cases heq : cell = index
  · rw [if_pos heq, hfound]
    exact ⟨_, rfl, rfl, rfl, fun _ => rfl⟩
  · rw [if_neg heq]
    exact ⟨found, hfound, rfl, rfl, id⟩

theorem Tabled.fetch (htabled : environment.Tabled) (hname : name.isIdentifier = true) :
    (environment.fetch name).2.Tabled := by
  have hold := environment.extends_fetch name
  have hnew := Machine.find?_fetch environment name
  unfold Environment.fetch at hold hnew ⊢
  cases hfind : environment.find? name with
  | some found => exact htabled
  | none =>
      rw [hfind] at hold hnew
      constructor
      · intro index cell hcell
        rw [Array.getElem?_push] at hcell
        split at hcell
        · cases hcell
          exact hname
        · exact htabled.identifier index cell hcell
      · intro index cell hcell
        rw [Array.getElem?_push] at hcell
        split at hcell
        · next heq =>
            cases hcell
            rw [heq]
            exact hnew
        · exact hold.find? (htabled.key index cell hcell)

theorem Tabled.assign (htabled : environment.Tabled) (cell : Nat) (value : Value) :
    (environment.assign cell value).Tabled := by
  have hcells (index : Nat) (found : Cell)
      (hfound : (environment.assign cell value).cells[index]? = some found) :
      ∃ old : Cell, environment.cells[index]? = some old ∧ found.name = old.name := by
    unfold Environment.assign at hfound
    rw [Array.getElem?_modify] at hfound
    split at hfound
    · obtain ⟨old, hold, rfl⟩ := Option.map_eq_some_iff.mp hfound
      exact ⟨old, hold, rfl⟩
    · exact ⟨found, hfound, rfl⟩
  constructor
  · intro index found hfound
    obtain ⟨old, hold, hname⟩ := hcells index found hfound
    rw [hname]
    exact htabled.identifier index old hold
  · intro index found hfound
    obtain ⟨old, hold, hname⟩ := hcells index found hfound
    rw [hname]
    exact (environment.extends_assign cell value).find? (htabled.key index old hold)

theorem value?_assign (hfind : environment.find? name = some cell) (value : Value) :
    (environment.assign cell value).value? cell = some value := by
  unfold Environment.find? at hfind
  rw [Array.findIdx?_eq_some_iff_getElem] at hfind
  obtain ⟨hlt, -, -⟩ := hfind
  unfold value? assign
  rw [Array.getElem?_modify, if_pos rfl, Array.getElem?_eq_getElem hlt]
  rfl

theorem name_of_find? (hfind : environment.find? name = some cell) :
    environment.name cell = name := by
  unfold Environment.find? at hfind
  rw [Array.findIdx?_eq_some_iff_getElem] at hfind
  obtain ⟨hlt, hfound, -⟩ := hfind
  obtain ⟨-, hequal⟩ := Bool.and_eq_true_iff.mp hfound
  rw [Environment.name, Array.getElem?_eq_getElem hlt]
  exact eq_of_beq hequal

theorem value?_fetch (environment : Environment) (name : Bytes) :
    (environment.fetch name).2.value? (environment.fetch name).1 =
      environment.value? (environment.fetch name).1 := by
  unfold fetch
  cases environment.find? name with
  | some cell => rfl
  | none => simp [value?]

theorem fetch_of_find? (hfind : environment.find? name = some cell) :
    environment.fetch name = (cell, environment) := by
  simp only [fetch, hfind]

end Environment

namespace Machine

variable {machine after : Machine}

theorem Step.extends (hstep : machine.Step after) :
    machine.environment.Extends after.environment := by
  cases hstep with
  | store _ => exact refl_of Environment.Extends _
  | fetch _ => exact machine.environment.extends_fetch _
  | assign cell value => exact machine.environment.extends_assign cell value
  | aside _ henvironment =>
      rw [henvironment]
      exact refl_of Environment.Extends _

theorem Steps.extends (hsteps : machine.Steps after) :
    machine.environment.Extends after.environment := by
  induction hsteps with
  | refl => exact refl_of Environment.Extends _
  | tail _ hstep ih => exact trans_of Environment.Extends ih hstep.extends

theorem Steps.find? {name : Bytes} {cell : Nat} (hsteps : machine.Steps after)
    (hfind : machine.environment.find? name = some cell) :
    after.environment.find? name = some cell :=
  hsteps.extends.find? hfind

theorem Steps.tabled (hsteps : machine.Steps after) (htabled : machine.environment.Tabled) :
    after.environment.Tabled := by
  induction hsteps with
  | refl => exact htabled
  | tail _ hstep ih =>
      cases hstep with
      | store _ => exact ih
      | fetch hname => exact ih.fetch hname
      | assign cell value => exact ih.assign cell value
      | aside _ henvironment => exact henvironment.symm ▸ ih

end Machine

end KnightLang
