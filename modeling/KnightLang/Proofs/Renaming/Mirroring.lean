import KnightLang.Proofs.Lockstep.Builtins
import KnightLang.Proofs.Renaming.Evaluation
import KnightLang.Proofs.Restoration

/-!
Machines that differ in payloads that are not live any more. What is evaluated in one of them ends
alike in the other: with the same value or error, with the same variables, payloads and effects.
Only the indices of payloads that are made on the way are others.
-/

namespace KnightLang

/-! ### Room between old and new payloads -/

namespace Renaming

/-- Indices below two boundaries stay, and the others move up. -/
def shift (texts nodes moreTexts moreNodes : Nat) : Renaming where
  text index := if index < texts then index else index + moreTexts
  node index := if index < nodes then index else index + moreNodes
  text_injective first second hsame := by
    dsimp only at hsame
    split_ifs at hsame <;> omega
  node_strictMono first second hlt := by
    dsimp only
    split_ifs <;> omega

variable {store : Store} {cells moreTexts moreNodes : Nat} {outside : Multiset Value}
  {value : Value}

theorem shift_value_of_made (hmade : store.Made value) :
    (shift store.texts.size store.nodes.size moreTexts moreNodes).value value = value := by
  induction value using Value.payloadCases with
  | plain value hplain => exact value_of_isPlain hplain
  | text index => exact congrArg (fun index => Value.string (.owned index)) (if_pos hmade)
  | application index => exact congrArg Value.expr (if_pos hmade)

theorem shift_value_of_mem (hbalanced : store.Balanced cells outside)
    (hmem : value ∈ store.holds + outside) :
    (shift store.texts.size store.nodes.size moreTexts moreNodes).value value = value := by
  cases hplain : value.isPlain with
  | true => exact value_of_isPlain hplain
  | false =>
      obtain ⟨payload, hlive⟩ := hbalanced.live_of_mem hmem hplain
      exact shift_value_of_made (Store.made_of_live? hlive)

/-- New indices in a store and in one that has had more payloads. -/
def between (store longer : Store) : Renaming :=
  shift store.texts.size store.nodes.size (longer.texts.size - store.texts.size)
    (longer.nodes.size - store.nodes.size)

end Renaming

theorem getElem?_append_extract {α : Type} (first longer : Array α) (index : Nat) :
    (first ++ longer.extract first.size)[index]? =
      if index < first.size then first[index]? else longer[index]? := by
  rw [Array.getElem?_append]
  split_ifs with hlt
  · rfl
  · have hindex : first.size + (index - first.size) = index := by omega
    rw [Array.getElem?_extract, hindex]
    split_ifs with hend
    · rfl
    · exact (Array.getElem?_eq_none (by omega)).symm

namespace Store

/-- The payloads of a store, and behind them those that a longer one has more. -/
def padded (rename : Renaming) (store longer : Store) : Store where
  texts := store.texts ++ longer.texts.extract store.texts.size
  nodes := store.nodes.map rename.application ++ longer.nodes.extract store.nodes.size

variable {rename : Renaming} {store longer : Store}

@[simp]
theorem text?_padded (index : Nat) :
    (padded rename store longer).text? index =
      if index < store.texts.size then store.text? index else longer.text? index :=
  getElem?_append_extract store.texts longer.texts index

@[simp]
theorem node?_padded (index : Nat) :
    (padded rename store longer).node? index =
      if index < store.nodes.size then (store.node? index).map rename.application
      else longer.node? index := by
  have happend := getElem?_append_extract (store.nodes.map rename.application) longer.nodes index
  rw [Array.size_map, Array.getElem?_map] at happend
  exact happend

theorem size_padded (rename : Renaming) (htexts : store.texts.size ≤ longer.texts.size)
    (hnodes : store.nodes.size ≤ longer.nodes.size) :
    (padded rename store longer).texts.size = longer.texts.size ∧
      (padded rename store longer).nodes.size = longer.nodes.size := by
  simp only [padded, Array.size_append, Array.size_extract, Array.size_map]
  omega

theorem text?_padded_between (htexts : store.texts.size ≤ longer.texts.size) (index : Nat) :
    (padded rename store longer).text? ((Renaming.between store longer).text index) =
      store.text? index := by
  by_cases hlt : index < store.texts.size
  · have hstays : (Renaming.between store longer).text index = index := if_pos hlt
    rw [hstays, text?_padded, if_pos hlt]
  · have hmoves : (Renaming.between store longer).text index =
        index + (longer.texts.size - store.texts.size) := if_neg hlt
    rw [hmoves, text?_padded, if_neg (by omega)]
    exact (Array.getElem?_eq_none (by omega)).trans (Array.getElem?_eq_none (by omega)).symm

theorem node?_padded_between (hnodes : store.nodes.size ≤ longer.nodes.size) (index : Nat) :
    (padded rename store longer).node? ((Renaming.between store longer).node index) =
      (store.node? index).map rename.application := by
  by_cases hlt : index < store.nodes.size
  · have hstays : (Renaming.between store longer).node index = index := if_pos hlt
    rw [hstays, node?_padded, if_pos hlt]
  · have hmoves : (Renaming.between store longer).node index =
        index + (longer.nodes.size - store.nodes.size) := if_neg hlt
    have hnone : store.node? index = none := Array.getElem?_eq_none (by omega)
    rw [hmoves, node?_padded, if_neg (by omega), hnone]
    exact Array.getElem?_eq_none (by omega)

/-- What is live in a longer store is as well in the padded one, if it was in the store before. -/
theorem shrinks_padded {cells : Nat} {outside : Multiset Value}
    (hbalanced : store.Balanced cells outside) (hcontinues : store.Continues longer)
    (hlive : ∀ value, longer.live? value = store.live? value) :
    (padded (.between store longer) store longer).Shrinks longer where
  texts_size := (size_padded _ hcontinues.texts_le hcontinues.nodes_le).1.symm
  nodes_size := (size_padded _ hcontinues.texts_le hcontinues.nodes_le).2.symm
  live value payload hvalue := by
    have hbefore := (hlive value).symm.trans hvalue
    have hmade := made_of_live? hbefore
    induction value using Value.payloadCases with
    | plain value hplain => simp [hplain] at hbefore
    | text index =>
        have hlt : index < store.texts.size := hmade
        simpa [hlt] using hbefore
    | application index =>
        have hlt : index < store.nodes.size := hmade
        obtain ⟨function, args, rfl⟩ := application_of_live? hbefore
        obtain ⟨refs, hrefs, hnode⟩ := node?_of_live? hbefore
        have hargs : args.map (Renaming.between store longer).value = args := by
          refine (List.map_congr_left fun value hmem => ?_).trans (List.map_id args)
          have hholds := mem_holds_of_live? hbefore hmem
          exact Renaming.shift_value_of_mem hbalanced (Multiset.mem_add.mpr (Or.inl hholds))
        simp [hlt, hnode, hrefs, Renaming.application, hargs]

end Store

namespace Machine

variable {rename : Renaming} {first second : Machine}

theorem Renamed.live?_eq (renamed : Renamed rename first second) (value : Value) :
    second.store.live? (rename.value value) = (first.store.live? value).map rename.payload := by
  induction value using Value.payloadCases with
  | plain value hplain =>
      simp [hplain]
  | text index =>
      change second.store.live? (.string (.owned (rename.text index))) = _
      rw [Store.live?_owned, Store.live?_owned, renamed.text? index]
      cases first.store.text? index with
      | none => rfl
      | some text =>
          simp only [Option.bind_some, Text.payload?]
          split <;> rfl
  | application index =>
      change second.store.live? (.expr (rename.node index)) = _
      rw [Store.live?_expr, Store.live?_expr, renamed.node? index]
      cases first.store.node? index with
      | none => rfl
      | some node =>
          simp only [Option.map_some, Option.bind_some, Node.payload?, Renaming.application]
          split <;> rfl

/-! ### What shows of two machines -/

/-- Two machines have the same variables and differ in nothing outside the store. -/
structure Alike (rename : Renaming) (first second : Machine) : Prop where
  aside : second = { first with store := second.store, environment := second.environment }
  cells : second.environment.cells = first.environment.cells.map rename.cell

/-- Two machines have the same live payloads as well, under other indices, with the same numbers of
references. -/
structure Mirrors (rename : Renaming) (first second : Machine) : Prop
    extends Alike rename first second where
  refs? : ∀ value, second.store.refs? (rename.value value) = first.store.refs? value
  live? : ∀ value,
    second.store.live? (rename.value value) = (first.store.live? value).map rename.payload
  others : ∀ value, value ∉ Set.range rename.value → second.store.live? value = none

theorem Alike.holds_eq (halike : Alike rename first second) :
    second.environment.holds = first.environment.holds.map rename.value := by
  have hcell (cell : Cell) : (rename.cell cell).holds = cell.holds.map rename.value := by
    unfold Cell.holds Renaming.cell
    cases cell.value with
    | none => rfl
    | some value => exact (Multiset.map_singleton _ _).symm
  unfold Environment.holds
  rw [halike.cells, Array.toList_map, List.map_map]
  induction first.environment.cells.toList with
  | nil => rfl
  | cons cell cells ih =>
      rw [List.map_cons, List.sum_cons, List.map_cons, List.sum_cons, Multiset.map_add, ← ih,
        Function.comp_apply, hcell]

variable {start start' lasting lasting' : Machine} {held : Multiset Value}

theorem InStep.alike {more : Multiset Value} (instep : start.InStep held first lasting)
    (instep' : start'.InStep more second lasting') (renamed : Renamed rename lasting lasting') :
    Alike rename first second where
  aside := by
    have haside := renamed.aside
    rw [instep.same, instep'.same] at haside
    exact congrArg
      (fun machine => { machine with store := second.store, environment := second.environment })
      haside
  cells := by
    rw [← instep.environment_eq, ← instep'.environment_eq]
    exact renamed.cells

/-- Two machines that count references mirror each other, if those beside them that keep every
payload differ in indices only. -/
theorem InStep.mirrors (instep : start.InStep held first lasting)
    (instep' : start'.InStep (held.map rename.value) second lasting')
    (renamed : Renamed rename lasting lasting') : Mirrors rename first second := by
  have halike := instep.alike instep' renamed
  have hbalanced : second.store.Balanced second.environment.cells.size
      ((first.environment.holds + held).map rename.value) := by
    rw [Multiset.map_add, ← halike.holds_eq]
    exact instep'.balanced
  have hagrees : Store.Agrees rename first.store second.store := by
    intro value payload payload' hlive hlive'
    have hkept := renamed.live?_eq value
    rw [instep.kept.live _ _ hlive, instep'.kept.live _ _ hlive'] at hkept
    exact Option.some.inj hkept
  exact
    { toAlike := halike
      refs? := Store.refs?_eq instep.balanced hbalanced hagrees
      live? := Store.live?_eq instep.balanced hbalanced hagrees
      others := fun _ => Store.live?_eq_none instep.balanced hbalanced hagrees }

end Machine

namespace Run

/-- Two runs end alike: with corresponding values or the same error in machines that mirror each
other, or both without having come to an end. -/
inductive Mirrored (rename : Renaming) :
    EStateM.Result Stop Machine Value → EStateM.Result Stop Machine Value → Prop where
  | ok {value : Value} {first second : Machine} :
      Machine.Mirrors rename first second →
      Mirrored rename (.ok value first) (.ok (rename.value value) second)
  | error {error : Error} {first second : Machine} :
      Machine.Mirrors rename first second →
      Mirrored rename (.error (.error error) first) (.error (.error error) second)
  | exhausted {first second : Machine} :
      Machine.Alike rename first second →
      Mirrored rename (.error .exhausted first) (.error .exhausted second)

variable {rename : Renaming} {start start' : Machine} {owned : Multiset Value}
  {result result' kept kept' : EStateM.Result Stop Machine Value}

theorem Mirrored.of_lockstep (hfirst : Lockstep start owned (fun value => {value}) result kept)
    (hsecond : Lockstep start' owned (fun value => {value}) result' kept')
    (howned : owned.map rename.value = owned)
    (hrelates : rename.Relates rename.value kept kept') : Mirrored rename result result' := by
  cases hrelates with
  | @ok value lasting lasting' renamed =>
      cases hfirst with
      | ok instep =>
          cases hsecond with
          | @ok _ second _ instep' =>
              have hend : start'.InStep (({value} + owned).map rename.value) second lasting' := by
                rwa [Multiset.map_add, howned, Multiset.map_singleton]
              exact .ok (instep.mirrors hend renamed)
  | @error stop lasting lasting' renamed =>
      cases hfirst with
      | error instep =>
          cases hsecond with
          | @error _ second _ instep' =>
              have hend : start'.InStep (owned.map rename.value) second lasting' := by rwa [howned]
              exact .error (instep.mirrors hend renamed)
      | exhausted instep =>
          cases hsecond with
          | exhausted instep' => exact .exhausted (instep.alike instep' renamed)

end Run

namespace Machine

variable {first second lasting : Machine} {owned : Multiset Value}

/-- What is in a cell stays under its index. -/
theorem map_cell_between {cells : Nat} (hbalanced : first.store.Balanced cells
      (first.environment.holds + owned)) (longer : Store) :
    first.environment.cells.map (Renaming.between first.store longer).cell =
      first.environment.cells := by
  refine Array.ext_getElem? fun index => ?_
  rw [Array.getElem?_map]
  cases hcell : first.environment.cells[index]? with
  | none => rfl
  | some cell =>
      obtain ⟨name, value, listed⟩ := cell
      cases value with
      | none => rfl
      | some value =>
          have hvalue : first.environment.value? index = some value := by
            rw [Environment.value?, hcell]
            rfl
          have hmem : value ∈ first.store.holds + (first.environment.holds + owned) :=
            Multiset.mem_add.mpr (Or.inr (Multiset.mem_add.mpr
              (Or.inl (Environment.mem_holds_of_value? hvalue))))
          have hstays : (Renaming.between first.store longer).value value = value :=
            Renaming.shift_value_of_mem hbalanced hmem
          rw [Option.map_some, Renaming.cell, Option.map_some, hstays]

/-- A machine beside one in which more payloads have been made, all of which are freed. -/
theorem renamed_padded (hstart : first.InStep owned first first)
    (instep : first.InStep owned second lasting)
    (haside : second = { first with store := second.store }) :
    Renamed (.between first.store second.store) first
      { second with
        store := .padded (.between first.store second.store) first.store second.store } where
  text? := Store.text?_padded_between instep.continues.texts_le
  node? := Store.node?_padded_between instep.continues.nodes_le
  next_text count := by
    have htexts := instep.continues.texts_le
    rw [(Store.size_padded _ htexts instep.continues.nodes_le).1]
    exact (if_neg (by omega)).trans (by omega)
  next_node count := by
    have hnodes := instep.continues.nodes_le
    rw [(Store.size_padded _ instep.continues.texts_le hnodes).2]
    exact (if_neg (by omega)).trans (by omega)
  older := hstart.balanced.older
  cells := by
    rw [map_cell_between hstart.balanced, haside]
  aside := by rw [haside]

/-- In a machine in which more payloads have been made and freed, an evaluation ends alike. -/
theorem mirrored_evaluate (hstart : first.InStep owned first first)
    (instep : first.InStep owned second lasting)
    (haside : second = { first with store := second.store }) (source : Source) (label : Bytes)
    (fuel : Nat) :
    Run.Mirrored (.between first.store second.store)
      ((Evaluator.within fuel first).evaluate source label first)
      ((Evaluator.within fuel second).evaluate source label second) := by
  have henvironment : second.environment.holds = first.environment.holds := by rw [haside]
  have hlive (value : Value) : second.store.live? value = first.store.live? value :=
    (hstart.payloads_eq instep henvironment value).2
  have hpadded : first.InStep owned second
      { second with
        store := .padded (.between first.store second.store) first.store second.store } :=
    { balanced := instep.balanced
      continues := instep.continues
      cells_le := instep.cells_le
      kept := Store.shrinks_padded hstart.balanced instep.continues hlive
      same := rfl }
  have howned : owned.map (Renaming.between first.store second.store).value = owned := by
    refine (Multiset.map_congr rfl fun value hmem => ?_).trans (Multiset.map_id owned)
    exact Renaming.shift_value_of_mem hstart.balanced
      (Multiset.mem_add.mpr (Or.inr (Multiset.mem_add.mpr (Or.inr hmem))))
  have hfirst := Run.Lockstep.evaluate (Evaluator.twins_within fuel hstart) hstart source label
  have hsecond := Run.Lockstep.evaluate (Evaluator.twins_within fuel hpadded) hpadded source label
  have hwithin : @Evaluator.within .lasting fuel
      { second with
        store := .padded (.between first.store second.store) first.store second.store } =
      @Evaluator.within .lasting fuel first := by
    unfold Evaluator.within
    rw [haside]
  have hmoves := @Renaming.moves_within .lasting _ (.between first.store second.store) fuel first
  refine .of_lockstep hfirst hsecond howned ?_
  rw [hwithin]
  exact @Renaming.Commutes.evaluate _ _ .lasting _ hmoves source label _ _
    (renamed_padded hstart instep haside)

end Machine

end KnightLang
