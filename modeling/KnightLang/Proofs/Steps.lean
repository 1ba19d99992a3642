import KnightLang.Evaluation
import KnightLang.Proofs.Counting
import Mathlib.Logic.Relation
import Mathlib.Tactic.SplitIfs

/-!
The steps that a store takes. A payload is made with one reference, the references of a live one
are counted up and down, a payload with one reference is freed, and the arguments of a freed
application are cleared. Every action on a store takes such steps only, wherever it starts and
however it ends.
-/

namespace KnightLang

/-- Whatever came of an action, it left a state of which something holds. -/
def LeftIn {ε σ α : Type} (holds : σ → Prop) : EStateM.Result ε σ α → Prop
  | .ok _ after | .error _ after => holds after

theorem LeftIn.weaken {ε σ α : Type} {holds other : σ → Prop} {result : EStateM.Result ε σ α}
    (hleft : LeftIn holds result) (hother : ∀ state, holds state → other state) :
    LeftIn other result := by
  cases result with
  | ok value after => exact hother after hleft
  | error error after => exact hother after hleft

/-- Wherever an action starts and however it ends, the state it leaves is related to the one it
started in. -/
def Along {ε σ α : Type} (relation : σ → σ → Prop) (action : EStateM ε σ α) : Prop :=
  ∀ state, LeftIn (relation state) (action state)

namespace Along

variable {ε σ α β : Type} {relation : σ → σ → Prop}

theorem observe {next : σ → EStateM ε σ α} (hnext : ∀ state, Along relation (next state)) :
    Along relation (get >>= next) :=
  fun state => hnext state state

theorem inspect {next : σ → EStateM ε σ α}
    (hnext : ∀ state, LeftIn (relation state) (next state state)) :
    Along relation (get >>= next) :=
  hnext

theorem update {change : σ → σ} (hchange : ∀ state, relation state (change state)) :
    Along relation (modify change : EStateM ε σ PUnit) :=
  fun state => hchange state

theorem ite {condition : Prop} [Decidable condition] {action other : EStateM ε σ α}
    (hthen : Along relation action) (helse : Along relation other) :
    Along relation (if condition then action else other) := by
  split
  · exact hthen
  · exact helse

variable [IsPreorder σ relation]

theorem pure (value : α) : Along relation (Pure.pure value : EStateM ε σ α) :=
  fun state => refl_of relation state

theorem throw (error : ε) : Along relation (MonadExcept.throw error : EStateM ε σ α) :=
  fun state => refl_of relation state

theorem bind {first : EStateM ε σ α} {next : α → EStateM ε σ β} (hfirst : Along relation first)
    (hnext : ∀ value, Along relation (next value)) : Along relation (first >>= next) := by
  intro state
  have hmiddle := hfirst state
  change LeftIn (relation state) (EStateM.bind first next state)
  unfold EStateM.bind
  cases hresult : first state with
  | error error after =>
      rw [hresult] at hmiddle
      exact hmiddle
  | ok value middle =>
      rw [hresult] at hmiddle
      exact (hnext value middle).weaken fun after hafter => trans_of relation hmiddle hafter

end Along

/-- What a step makes of a string: a live one keeps its bytes while it lives and is freed only with
its last reference, and a freed one stays as it is. -/
structure Text.Becomes (text later : Text) : Prop where
  bytes : later.refs ≠ 0 → later.bytes = text.bytes
  last : text.refs ≠ 0 → later.refs = 0 → text.refs = 1
  freed : text.refs = 0 → later = text

/-- What a step makes of an application: a live one keeps its arguments and is freed only with its
last reference, and a freed one stays freed. -/
structure Node.Becomes (node later : Node) : Prop where
  function : later.function = node.function
  args : node.refs ≠ 0 → later.args = node.args
  last : node.refs ≠ 0 → later.refs = 0 → node.refs = 1
  freed : node.refs = 0 → later.refs = 0

theorem Text.Becomes.refl (text : Text) : text.Becomes text :=
  ⟨fun _ => rfl, fun hlive hzero => absurd hzero hlive, fun _ => rfl⟩

theorem Node.Becomes.refl (node : Node) : node.Becomes node :=
  ⟨rfl, fun _ => rfl, fun hlive hzero => absurd hzero hlive, id⟩

namespace Store

/-- One step of a store. -/
inductive Step (store : Store) : Store → Prop where
  | addText (contents : Bytes) :
      Step store { store with texts := store.texts.push { bytes := contents, refs := 1 } }
  | addNode (function : Function) (args : List Value) :
      Step store { store with nodes := store.nodes.push { function, args, refs := 1 } }
  | countText {index refs : Nat} {text : Text} :
      store.text? index = some text → text.refs ≠ 0 → refs ≠ 0 →
      refs = text.refs + 1 ∨ text.refs = refs + 1 → Step store (store.setTextRefs index refs)
  | countNode {index refs : Nat} {node : Node} :
      store.node? index = some node → node.refs ≠ 0 → refs ≠ 0 →
      refs = node.refs + 1 ∨ node.refs = refs + 1 → Step store (store.setNodeRefs index refs)
  | freeText {index : Nat} {text : Text} :
      store.text? index = some text → text.refs = 1 → Step store (store.freeText index)
  | freeNode {index : Nat} {node : Node} :
      store.node? index = some node → node.refs = 1 → Step store (store.setNodeRefs index 0)
  | clearArg {index : Nat} {node : Node} (position : Nat) :
      store.node? index = some node → node.refs = 0 → Step store (store.clearArg index position)

/-- Any number of steps. -/
def Steps : Store → Store → Prop := Relation.ReflTransGen Step

instance : IsPreorder Store Steps := inferInstanceAs (IsPreorder Store (Relation.ReflTransGen Step))

theorem Step.steps {store after : Store} (hstep : store.Step after) : store.Steps after :=
  Relation.ReflTransGen.single hstep

/-! ### What steps keep -/

section Keeping

variable {store after : Store} {index : Nat}

theorem Step.continues (hstep : store.Step after) : store.Continues after := by
  cases hstep with
  | addText contents => exact continues_pushText store _
  | addNode function args => exact continues_pushNode store _
  | countText htext hlive hrefs _ =>
      exact (shrinks_modifyText htext _ (by simp [hlive, hrefs])).continues
  | countNode hnode hlive hrefs _ =>
      exact (shrinks_modifyNode hnode _ (by simp [hlive, hrefs])).continues
  | freeText htext _ => exact (shrinks_modifyText htext _ (by simp)).continues
  | freeNode hnode _ => exact (shrinks_modifyNode hnode _ (by simp)).continues
  | clearArg position hnode hdead =>
      exact (shrinks_modifyNode hnode _ (by simp [hdead])).continues

theorem Steps.continues (hsteps : store.Steps after) : store.Continues after := by
  induction hsteps with
  | refl => exact .refl store
  | tail _ hstep ih => exact ih.trans hstep.continues

theorem becomes_modifyText {text changed : Text} {other : Nat}
    (htext : store.text? index = some text) (hchanged : store.text? other = some changed)
    {change : Text → Text} (hbecomes : changed.Becomes (change changed)) :
    ∃ later, text? { store with texts := store.texts.modify other change } index = some later ∧
      text.Becomes later := by
  rw [text?_modify]
  by_cases heq : other = index
  · subst heq
    obtain rfl : text = changed := Option.some.inj (htext.symm.trans hchanged)
    exact ⟨change text, by rw [if_pos rfl, htext, Option.map_some], hbecomes⟩
  · exact ⟨text, by rw [if_neg heq, htext], .refl text⟩

theorem becomes_modifyNode {node changed : Node} {other : Nat}
    (hnode : store.node? index = some node) (hchanged : store.node? other = some changed)
    {change : Node → Node} (hbecomes : changed.Becomes (change changed)) :
    ∃ later, node? { store with nodes := store.nodes.modify other change } index = some later ∧
      node.Becomes later := by
  rw [node?_modify]
  by_cases heq : other = index
  · subst heq
    obtain rfl : node = changed := Option.some.inj (hnode.symm.trans hchanged)
    exact ⟨change node, by rw [if_pos rfl, hnode, Option.map_some], hbecomes⟩
  · exact ⟨node, by rw [if_neg heq, hnode], .refl node⟩

theorem Step.text {text : Text} (hstep : store.Step after) (htext : store.text? index = some text) :
    ∃ later, after.text? index = some later ∧ text.Becomes later := by
  have hsame : ∃ later, store.text? index = some later ∧ text.Becomes later :=
    ⟨text, htext, .refl text⟩
  cases hstep with
  | addText contents =>
      have hlt : index < store.texts.size := (Array.getElem?_eq_some_iff.mp htext).1
      simpa [hlt.ne] using hsame
  | countText hchanged hlive hrefs _ =>
      refine becomes_modifyText htext hchanged ⟨fun _ => rfl, ?_, ?_⟩
      · exact fun _ hzero => absurd hzero hrefs
      · exact fun hzero => absurd hzero hlive
  | freeText hchanged hone =>
      refine becomes_modifyText htext hchanged ⟨?_, fun _ _ => hone, ?_⟩
      · exact fun hlive => absurd rfl hlive
      · intro hzero
        omega
  | addNode _ _ | countNode _ _ _ _ | freeNode _ _ | clearArg _ _ _ => exact hsame

theorem Step.node {node : Node} (hstep : store.Step after) (hnode : store.node? index = some node) :
    ∃ later, after.node? index = some later ∧ node.Becomes later := by
  have hsame : ∃ later, store.node? index = some later ∧ node.Becomes later :=
    ⟨node, hnode, .refl node⟩
  cases hstep with
  | addNode function args =>
      have hlt : index < store.nodes.size := (Array.getElem?_eq_some_iff.mp hnode).1
      simpa [hlt.ne] using hsame
  | countNode hchanged hlive hrefs _ =>
      refine becomes_modifyNode hnode hchanged ⟨rfl, fun _ => rfl, ?_, ?_⟩
      · exact fun _ hzero => absurd hzero hrefs
      · exact fun hzero => absurd hzero hlive
  | freeNode hchanged hone =>
      exact becomes_modifyNode hnode hchanged ⟨rfl, fun _ => rfl, fun _ _ => hone, fun _ => rfl⟩
  | clearArg position hchanged hdead =>
      refine becomes_modifyNode hnode hchanged ⟨rfl, ?_, ?_, id⟩
      · exact fun hlive => absurd hdead hlive
      · exact fun hlive => absurd hdead hlive
  | addText _ | countText _ _ _ _ | freeText _ _ => exact hsame

theorem Steps.freed {node : Node} (hsteps : store.Steps after)
    (hnode : store.node? index = some node) (hdead : node.refs = 0) :
    ∃ later, after.node? index = some later ∧ later.refs = 0 := by
  induction hsteps with
  | refl => exact ⟨node, hnode, hdead⟩
  | tail _ hstep ih =>
      obtain ⟨middle, hmiddle, hzero⟩ := ih
      obtain ⟨later, hlater, hbecomes⟩ := hstep.node hmiddle
      exact ⟨later, hlater, hbecomes.freed hzero⟩

end Keeping

/-! ### Actions take steps -/

section Actions

theorem along_addText (contents : Bytes) : Along Steps (addText contents) :=
  fun _ => (Step.addText contents).steps

theorem along_addNode (function : Function) (args : List Value) :
    Along Steps (addNode function args) :=
  fun _ => (Step.addNode function args).steps

theorem along_retainText (text : TextRef) : Along Steps (retainText text) := by
  cases text with
  | static text => exact .pure _
  | owned index =>
      refine .inspect fun store => ?_
      cases htext : store.text? index with
      | none => exact refl_of Steps store
      | some text =>
          obtain ⟨bytes, refs⟩ := text
          cases refs with
          | zero => exact refl_of Steps store
          | succ refs =>
              exact (Step.countText htext (Nat.succ_ne_zero _) (by simp) (Or.inl rfl)).steps

theorem along_retain (value : Value) : Along Steps (retain value) := by
  cases value with
  | string text => exact along_retainText text
  | expr index =>
      refine .inspect fun store => ?_
      cases hnode : store.node? index with
      | none => exact refl_of Steps store
      | some node =>
          obtain ⟨function, args, refs⟩ := node
          cases refs with
          | zero => exact refl_of Steps store
          | succ refs =>
              exact (Step.countNode hnode (Nat.succ_ne_zero _) (by simp) (Or.inl rfl)).steps
  | null | boolean flag | number word | «variable» cell => exact .pure _

theorem along_releaseText (text : TextRef) : Along Steps (releaseText text) := by
  cases text with
  | static text => exact .pure _
  | owned index =>
      refine .inspect fun store => ?_
      cases htext : store.text? index with
      | none => exact refl_of Steps store
      | some text =>
          obtain ⟨bytes, refs⟩ := text
          match refs with
          | 0 => exact refl_of Steps store
          | 1 => exact (Step.freeText htext rfl).steps
          | refs + 2 =>
              exact (Step.countText htext (by simp) (Nat.succ_ne_zero _) (Or.inr rfl)).steps

/-- A freed application stays freed while its arguments are released, so that each of them can be
cleared. -/
theorem leftIn_releaseArgs {release : Value → StoreM PUnit}
    (hrelease : ∀ value, Along Steps (release value)) {store : Store} {index : Nat} {node : Node}
    (hnode : store.node? index = some node) (hdead : node.refs = 0) (position : Nat)
    (args : List Value) :
    LeftIn store.Steps (releaseArgs release index position args store) := by
  induction args generalizing store node position with
  | nil => exact refl_of Steps store
  | cons value rest ih =>
      have hreleased := hrelease value store
      simp only [releaseArgs, bind, EStateM.bind]
      cases hresult : release value store with
      | error fault after =>
          rw [hresult] at hreleased
          exact hreleased
      | ok done middle =>
          rw [hresult] at hreleased
          obtain ⟨freed, hfreed, hzero⟩ := Steps.freed hreleased hnode hdead
          have hclear := Step.clearArg position hfreed hzero
          obtain ⟨cleared, hcleared, hbecomes⟩ := hclear.node hfreed
          have hprefix : store.Steps (middle.clearArg index position) :=
            trans_of Steps hreleased hclear.steps
          exact (ih hcleared (hbecomes.freed hzero) (position + 1)).weaken fun after hafter =>
            trans_of Steps hprefix hafter

theorem along_releaseWithin (bound : Nat) (value : Value) :
    Along Steps (releaseWithin bound value) := by
  induction bound generalizing value with
  | zero =>
      cases value with
      | string text => exact along_releaseText text
      | null | boolean flag | number word | «variable» cell | expr index => exact .pure _
  | succ bound ih =>
      cases value with
      | string text => exact along_releaseText text
      | expr index =>
          refine .inspect fun store => ?_
          cases hnode : store.node? index with
          | none => exact refl_of Steps store
          | some node =>
              obtain ⟨function, args, refs⟩ := node
              match refs with
              | 0 => exact refl_of Steps store
              | 1 =>
                  have hfree := Step.freeNode hnode rfl
                  have hfreed : (store.setNodeRefs index 0).node? index =
                      some { function, args, refs := 0 } := by
                    simp [hnode]
                  exact (leftIn_releaseArgs ih hfreed rfl 0 args).weaken fun after hafter =>
                    trans_of Steps hfree.steps hafter
              | refs + 2 =>
                  exact (Step.countNode hnode (by simp) (Nat.succ_ne_zero _) (Or.inr rfl)).steps
      | null | boolean flag | number word | «variable» cell => exact .pure _

theorem along_release (value : Value) : Along Steps (release value) :=
  .observe fun store => along_releaseWithin store.nodes.size value

end Actions

/-! ### Strings -/

section Strings

variable {relation : Store → Store → Prop} [IsPreorder Store relation]
  (hretain : ∀ text, Along relation (retainText text))
  (hadd : ∀ contents, Along relation (addText contents))

include hadd in
theorem along_intern (contents : Bytes) : Along relation (intern contents) := by
  unfold intern
  cases StaticText.find? contents with
  | some text => exact .pure _
  | none => exact hadd contents

include hretain in
theorem along_share (text : TextRef) : Along relation (share text) :=
  (hretain text).bind fun _ => .pure _

include hretain hadd

theorem along_literalText (value : Value) : Along relation (literalText value) := by
  cases value with
  | number word =>
      refine .ite (.pure _) ?_
      exact .ite (.pure _) (hadd _)
  | string text => exact (hretain text).bind fun _ => .pure _
  | null | boolean flag | «variable» cell | expr index => exact .pure _

theorem along_concat (first second : TextRef) : Along relation (concat first second) := by
  refine .observe fun store => ?_
  refine .ite (along_share hretain second) ?_
  refine .ite (along_share hretain first) ?_
  exact .ite (.pure _) ((hadd _).bind fun _ => .pure _)

theorem along_replicate (text : TextRef) (count : Int64) :
    Along relation (replicate text count) := by
  refine .observe fun store => ?_
  refine .ite (.pure _) ?_
  refine .ite (.pure _) ?_
  refine .ite (along_share hretain text) ?_
  exact .ite (.pure _) ((hadd _).bind fun _ => .pure _)

theorem along_substring (text : TextRef) (start length : Int64) :
    Along relation (substring text start length) := by
  refine .observe fun store => ?_
  refine .ite (.pure _) ?_
  refine .ite (.pure _) ?_
  exact .ite (along_share hretain text) ((along_intern hadd _).bind fun _ => .pure _)

theorem along_splice (text : TextRef) (start length : Int64) (replacement : TextRef) :
    Along relation (splice text start length replacement) := by
  refine .observe fun store => ?_
  refine .ite (.pure _) ?_
  refine .ite (.pure _) ?_
  refine .ite (.pure _) ?_
  refine .ite (.pure _) ?_
  refine .ite (along_share hretain replacement) ?_
  exact .ite (along_share hretain text) ((hadd _).bind fun _ => .pure _)

end Strings

end Store

end KnightLang
