import KnightLang.Proofs.Expression.Loading
import KnightLang.Proofs.Renaming.Machines

/-!
Actions in machines that have the same payloads under different indices. As long as references are
not counted, an action does the same in both: what it gives, and the machine that it leaves behind,
differ in the indices only.
-/

namespace KnightLang

/-- Adding a reference and removing one change nothing. -/
class Custody.IsIdle (custody : Custody) : Prop where
  retain : ∀ value, custody.retain value = pure ⟨⟩
  release : ∀ value, custody.release value = pure ⟨⟩

instance : Custody.lasting.IsIdle where
  retain _ := rfl
  release _ := rfl

namespace Run

theorem load_apply {function : Function} {args : List Tree} {values : List Value}
    {machine middle : Machine} (hload : Tree.loadAll args machine = .ok values middle) :
    (Tree.apply function args).load machine =
      Run.onStore (Store.addNode function values) middle := Run.bind_ok hload

variable {α : Type} [custody : Custody] [custody.IsIdle]

@[simp]
theorem retain_of_isIdle (value : Value) : Run.retain value = pure ⟨⟩ := by
  unfold Run.retain
  rw [Custody.IsIdle.retain]
  rfl

@[simp]
theorem release_of_isIdle (value : Value) : Run.release value = pure ⟨⟩ := by
  unfold Run.release
  rw [Custody.IsIdle.release]
  rfl

@[simp]
theorem deferring_of_isIdle (value : Value) (action : Run α) :
    Run.deferring (Run.release value) action = action := by
  rw [release_of_isIdle]
  funext machine
  unfold Run.deferring
  cases action machine <;> rfl

@[simp]
theorem concluding_of_isIdle (value : Value) (action : Run α) :
    Run.concluding (Run.release value) action = action := by
  rw [release_of_isIdle]
  funext machine
  unfold Run.concluding
  cases action machine with
  | ok result after => rfl
  | error stop after => cases stop <;> rfl

@[simp]
theorem onError_of_isIdle (value : Value) (action : Run α) :
    Run.onError (Run.release value) action = action := by
  rw [release_of_isIdle]
  funext machine
  unfold Run.onError
  cases action machine with
  | ok result after => rfl
  | error stop after => cases stop <;> rfl

end Run

namespace Renaming

open Machine

variable {α β : Type} {rename : Renaming}

/-- Two results that differ in indices only; `move` says what becomes of what they give. -/
inductive Relates (rename : Renaming) (move : α → α) :
    EStateM.Result Stop Machine α → EStateM.Result Stop Machine α → Prop where
  | ok {value : α} {first second : Machine} :
      Renamed rename first second → Relates rename move (.ok value first) (.ok (move value) second)
  | error {stop : Stop} {first second : Machine} :
      Renamed rename first second → Relates rename move (.error stop first) (.error stop second)

/-- An action does the same as another one does under other indices. -/
def Commutes (rename : Renaming) (move : α → α) (action other : Run α) : Prop :=
  ∀ first second, Renamed rename first second →
    rename.Relates move (action first) (other second)

namespace Commutes

variable {move : α → α} {move' : β → β} {action other : Run α}

/-! ### Actions made of actions -/

theorem pure (value : α) : rename.Commutes move (Pure.pure value) (Pure.pure (move value)) :=
  fun _ _ renamed => .ok renamed

theorem throw (stop : Stop) :
    rename.Commutes move (MonadExcept.throw stop : Run α) (MonadExcept.throw stop) :=
  fun _ _ renamed => .error renamed

theorem raise (reason : Reason) :
    rename.Commutes move (Run.raise reason : Run α) (Run.raise reason) := throw _

theorem raiseBecause (reason : Reason) (cause : Bytes) :
    rename.Commutes move (Run.raiseBecause reason cause : Run α) (Run.raiseBecause reason cause) :=
  throw _

theorem bind {next next' : α → Run β} (haction : rename.Commutes move action other)
    (hnext : ∀ value, rename.Commutes move' (next value) (next' (move value))) :
    rename.Commutes move' (action >>= next) (other >>= next') := by
  intro first second renamed
  have hrelates := haction first second renamed
  change rename.Relates move' (EStateM.bind action next first) (EStateM.bind other next' second)
  unfold EStateM.bind
  generalize action first = result at hrelates
  generalize other second = result' at hrelates
  cases hrelates with
  | ok hafter => exact hnext _ _ _ hafter
  | error hafter => exact .error hafter

theorem observe {next next' : Machine → Run α}
    (hnext : ∀ first second, Renamed rename first second →
      rename.Commutes move (next first) (next' second)) :
    rename.Commutes move (get >>= next) (get >>= next') :=
  fun first second renamed => hnext first second renamed first second renamed

theorem ite {condition : Prop} [Decidable condition] {action' other' : Run α}
    (hthen : rename.Commutes move action other) (helse : rename.Commutes move action' other') :
    rename.Commutes move (if condition then action else action')
      (if condition then other else other') := by
  split
  · exact hthen
  · exact helse

theorem ofExcept (result : Except Reason α) :
    rename.Commutes id (Run.ofExcept result) (Run.ofExcept result) := by
  cases result with
  | ok value => exact pure value
  | error reason => exact raise reason

/-! ### Strings -/

theorem addText (contents : Bytes) :
    rename.Commutes rename.textRef (Run.onStore (Store.addText contents))
      (Run.onStore (Store.addText contents)) := by
  intro first second renamed
  have hindex : TextRef.owned second.store.texts.size =
      rename.textRef (.owned first.store.texts.size) :=
    congrArg TextRef.owned ((renamed.text_eq_size_iff _).mpr rfl).symm
  have hadded := @Relates.ok _ rename rename.textRef (.owned first.store.texts.size) _ _
    (renamed.pushText { bytes := contents, refs := 1 })
  rw [← hindex] at hadded
  exact hadded

theorem intern (contents : Bytes) :
    rename.Commutes rename.textRef (Run.onStore (Store.intern contents))
      (Run.onStore (Store.intern contents)) := by
  unfold Store.intern
  split
  · exact fun _ _ renamed => .ok renamed
  · exact addText contents

theorem tryAddText (contents : Bytes) :
    rename.Commutes rename.textRef
      (Run.tryOnStore (do return .ok (← Store.addText contents)))
      (Run.tryOnStore (do return .ok (← Store.addText contents))) := by
  rw [Run.tryOnStore_bind]
  exact (addText contents).bind fun text => pure text

theorem tryIntern (contents : Bytes) :
    rename.Commutes rename.textRef
      (Run.tryOnStore (do return .ok (← Store.intern contents)))
      (Run.tryOnStore (do return .ok (← Store.intern contents))) := by
  rw [Run.tryOnStore_bind]
  exact (intern contents).bind fun text => pure text

section Operations

variable [custody : Custody] [custody.IsIdle]

theorem share (text : TextRef) :
    rename.Commutes rename.textRef (Run.tryOnStore (Store.share text))
      (Run.tryOnStore (Store.share (rename.textRef text))) := by
  unfold Store.share
  rw [Custody.IsIdle.retain, Custody.IsIdle.retain]
  exact pure text

theorem concat (first second : TextRef) :
    rename.Commutes rename.textRef (Run.tryOnStore (Store.concat first second))
      (Run.tryOnStore (Store.concat (rename.textRef first) (rename.textRef second))) := by
  intro machine machine' renamed
  unfold Store.concat
  rw [Run.tryOnStore_get, Run.tryOnStore_get]
  simp only [renamed.bytes_eq]
  split_ifs
  · exact share second _ _ renamed
  · exact share first _ _ renamed
  · exact raise _ _ _ renamed
  · exact tryAddText _ _ _ renamed

theorem replicate (text : TextRef) (count : Int64) :
    rename.Commutes rename.textRef (Run.tryOnStore (Store.replicate text count))
      (Run.tryOnStore (Store.replicate (rename.textRef text) count)) := by
  intro machine machine' renamed
  unfold Store.replicate
  rw [Run.tryOnStore_get, Run.tryOnStore_get]
  simp only [renamed.bytes_eq]
  split_ifs
  · exact raise _ _ _ renamed
  · exact .ok renamed
  · exact share text _ _ renamed
  · exact raise _ _ _ renamed
  · exact tryAddText _ _ _ renamed

theorem substring (text : TextRef) (position length : Int64) :
    rename.Commutes rename.textRef (Run.tryOnStore (Store.substring text position length))
      (Run.tryOnStore (Store.substring (rename.textRef text) position length)) := by
  intro machine machine' renamed
  unfold Store.substring
  rw [Run.tryOnStore_get, Run.tryOnStore_get]
  simp only [renamed.bytes_eq]
  split_ifs
  · exact raise _ _ _ renamed
  · exact .ok renamed
  · exact share text _ _ renamed
  · exact tryIntern _ _ _ renamed

theorem splice (text : TextRef) (position length : Int64) (replacement : TextRef) :
    rename.Commutes rename.textRef
      (Run.tryOnStore (Store.splice text position length replacement))
      (Run.tryOnStore
        (Store.splice (rename.textRef text) position length (rename.textRef replacement))) := by
  intro machine machine' renamed
  unfold Store.splice
  rw [Run.tryOnStore_get, Run.tryOnStore_get]
  simp only [renamed.bytes_eq]
  split_ifs
  · exact raise _ _ _ renamed
  · exact raise _ _ _ renamed
  · exact .ok renamed
  · exact raise _ _ _ renamed
  · exact share replacement _ _ renamed
  · exact share text _ _ renamed
  · exact tryAddText _ _ _ renamed

theorem literalText (value : Value) :
    rename.Commutes rename.textRef (Run.onStore (Store.literalText value))
      (Run.onStore (Store.literalText (rename.value value))) := by
  cases value with
  | number word =>
      change rename.Commutes _ (Run.onStore (Store.numberText word))
        (Run.onStore (Store.numberText word))
      unfold Store.numberText
      split_ifs
      · exact fun _ _ renamed => .ok renamed
      · exact fun _ _ renamed => .ok renamed
      · exact addText _
  | string text =>
      simp only [Renaming.value, Store.literalText, Custody.IsIdle.retain]
      exact fun _ _ renamed => .ok renamed
  | null | boolean flag | «variable» cell | expr node => exact fun _ _ renamed => .ok renamed

/-! ### Variables -/

theorem read (cell : Nat) : rename.Commutes rename.value (Run.read cell) (Run.read cell) := by
  refine observe fun first second renamed => ?_
  simp only [renamed.value?_eq cell, renamed.name_eq]
  cases first.environment.value? cell with
  | none => exact raise _
  | some value =>
      simp only [Option.map_some, Run.retain_of_isIdle]
      exact pure value

theorem assign (cell : Nat) (value : Value) :
    rename.Commutes id (Run.assign cell value) (Run.assign cell (rename.value value)) := by
  refine observe fun first second renamed => ?_
  have hassign : rename.Commutes id
      (modify fun machine : Machine =>
        { machine with environment := machine.environment.assign cell value })
      (modify fun machine : Machine =>
        { machine with environment := machine.environment.assign cell (rename.value value) }) :=
    fun _ _ renamed => .ok (renamed.assign cell value)
  refine hassign.bind fun _ => ?_
  rw [renamed.value?_eq cell]
  cases first.environment.value? cell with
  | none => exact pure _
  | some previous =>
      simp only [Option.map_some, Run.release_of_isIdle]
      exact pure _

end Operations

theorem fetch (name : Bytes) : rename.Commutes id (Run.fetch name) (Run.fetch name) := by
  intro first second renamed
  obtain ⟨hcell, hfetched⟩ := renamed.fetch name
  change rename.Relates id (.ok (first.environment.fetch name).1 _)
    (.ok (second.environment.fetch name).1 _)
  rw [hcell]
  exact .ok hfetched

/-! ### The outside -/

/-- Whatever is asked of the outside, both machines get the same answer. -/
theorem askWorld (ask : World → α × World) :
    rename.Commutes id
      (modifyGet fun machine : Machine =>
        ((ask machine.world).1, { machine with world := (ask machine.world).2 }))
      (modifyGet fun machine : Machine =>
        ((ask machine.world).1, { machine with world := (ask machine.world).2 })) := by
  intro first second renamed
  change rename.Relates id (.ok (ask first.world).1 _) (.ok (ask second.world).1 _)
  rw [renamed.world_eq]
  exact .ok (renamed.update rfl rfl (by rw [renamed.aside]))

theorem flush : rename.Commutes id Run.flush Run.flush := by
  refine (askWorld World.flush).bind fun failure => ?_
  cases failure with
  | some text => exact raiseBecause _ text
  | none => exact pure _

theorem write (bytes : Bytes) : rename.Commutes id (Run.write bytes) (Run.write bytes) := by
  refine (askWorld fun world => world.write bytes).bind fun failure => ?_
  cases failure with
  | some text => exact raiseBecause _ text
  | none => exact flush

theorem log (record : LogRecord) : rename.Commutes id (Run.log record) (Run.log record) :=
  askWorld fun world => (PUnit.unit, world.log record)

theorem drawRandom : rename.Commutes id Run.drawRandom Run.drawRandom := by
  intro first second renamed
  have hrandom : second.random = first.random := by rw [renamed.aside]
  change rename.Relates id (.ok (Int64.ofNat ((first.random * _ + _) >>> 33).toNat) _)
    (.ok (Int64.ofNat ((second.random * _ + _) >>> 33).toNat) _)
  rw [hrandom]
  exact .ok (renamed.update rfl rfl (by rw [renamed.aside]))

theorem dump (value : Value) :
    rename.Commutes id (Run.dump value) (Run.dump (rename.value value)) := by
  refine observe fun first second renamed => ?_
  rw [renamed.dump_eq value]
  exact pure _

/-! ### Expressions -/

theorem addNode {first second : Machine} (renamed : Renamed rename first second)
    (function : Function) {args : List Value}
    (holder : ∀ child, .expr child ∈ args → child < first.store.nodes.size) :
    rename.Relates rename.value (Run.onStore (Store.addNode function args) first)
      (Run.onStore (Store.addNode function (args.map rename.value)) second) := by
  have hindex : Value.expr second.store.nodes.size =
      rename.value (.expr first.store.nodes.size) :=
    congrArg Value.expr ((renamed.node_eq_size_iff _).mpr rfl).symm
  have hpushed : Renamed rename _ _ :=
    renamed.pushNode (show ∀ child, .expr child ∈ ({ function, args, refs := 1 } : Node).args →
      child < first.store.nodes.size from holder)
  have hadded := @Relates.ok _ rename rename.value (.expr first.store.nodes.size) _ _ hpushed
  rw [← hindex] at hadded
  exact hadded

mutual

theorem load (tree : Tree) : rename.Commutes rename.value tree.load tree.load := by
  match tree with
  | .null | .boolean _ | .number _ => exact fun _ _ renamed => .ok renamed
  | .text contents => exact (intern contents).bind fun text => pure (Value.string text)
  | .variable name => exact (fetch name).bind fun cell => pure (Value.variable cell)
  | .apply function args =>
      intro first second renamed
      obtain ⟨values, middle, hload, -, hstands⟩ := Machine.stands_loadAll args first
      have hall := loadAll args first second renamed
      rw [hload] at hall
      generalize hload' : Tree.loadAll args second = result at hall
      cases hall with
      | ok hmiddle =>
          have hadded := addNode hmiddle function fun child hmem => hstands.lt_size hmem
          rw [← Run.load_apply hload, ← Run.load_apply hload'] at hadded
          exact hadded

theorem loadAll (trees : List Tree) :
    rename.Commutes (List.map rename.value) (Tree.loadAll trees) (Tree.loadAll trees) := by
  match trees with
  | [] => exact fun _ _ renamed => .ok renamed
  | tree :: trees =>
      exact (load tree).bind fun value => (loadAll trees).bind fun values => pure (value :: values)

end

theorem fetchAll (names : List Bytes) :
    rename.Commutes id (names.forM fun name => do let _ ← Run.fetch name)
      (names.forM fun name => do let _ ← Run.fetch name) := by
  induction names with
  | nil => exact pure _
  | cons name names ih =>
      have hname : rename.Commutes id (do let _ ← Run.fetch name) (do let _ ← Run.fetch name) :=
        (fetch name).bind fun _ => pure _
      exact hname.bind fun _ => ih

theorem parseFrom (source : Source) (label : Bytes) :
    rename.Commutes (fun result => (result.1.map rename.value, result.2))
      (Run.parseFrom source label) (Run.parseFrom source label) := by
  refine observe fun first second renamed => ?_
  have hgrammar : second.grammar label source.failure = first.grammar label source.failure := by
    rw [renamed.aside]
    rfl
  rw [hgrammar]
  cases (first.grammar label source.failure).parse source.unread with
  | ok tree scanner => exact (load tree).bind fun value => pure _
  | error error scanner => exact (fetchAll scanner.names.reverse).bind fun _ => pure _

end Commutes

end Renaming

end KnightLang
